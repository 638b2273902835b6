import Laye.Json.Printer
import Laye.Json.Reader
import Laye.Proofs.Decimal.Scanning

/-!
# What is written as JSON is read back

`Json.read_pretty` and `Json.read_compact`: both layouts of a value are read as that value, and as a
complete text. This is asked of values that have no flaws and whose numbers are well formed
(`Json.Plain`), as all values are that the library writes.

The reader is told how many steps it may take. A step spends at least one character, so the length
of what is written for a value is enough for it (`value_chars`), whatever follows. -/

namespace Laye.Json

open Numeral (Ends)

/-! ### Strings -/

theorem hexDigit?_digitChar {n : Nat} (h : n < 16) : hexDigit? n.digitChar = some n := by
  have hall : ∀ n < 16, hexDigit? n.digitChar = some n := by decide
  exact hall n h

theorem hexQuad?_control {n : Nat} (h : n < 0x20) :
    hexQuad? '0' '0' (n / 16).digitChar (n % 16).digitChar = some n := by
  have hzero : hexDigit? '0' = some 0 := by decide
  simp only [hexQuad?, hzero, hexDigit?_digitChar (show n / 16 < 16 by omega),
    hexDigit?_digitChar (show n % 16 < 16 by omega), Option.some.injEq]
  omega

theorem scanString_escapedChar (c : Char) (rest : List Char) :
    scanString (escapedChar c ++ rest) =
      (scanString rest).map fun (units, rest) => (c.toNat :: units, rest) := by
  by_cases hshort : c = '"' ∨ c = '\\' ∨ c = '\x08' ∨ c = '\t' ∨ c = '\n' ∨ c = '\x0c' ∨ c = '\r'
  · -- The escapes of one letter.
    rcases hshort with rfl | rfl | rfl | rfl | rfl | rfl | rfl <;> rfl
  · simp only [not_or] at hshort
    obtain ⟨hquote, hslash, hb, ht, hn, hf, hr⟩ := hshort
    by_cases hcontrol : c.toNat < 0x20
    · simp only [escapedChar, hquote, hslash, hb, ht, hn, hf, hr, if_false, hcontrol, if_true,
        List.cons_append, List.nil_append]
      rw [scanString]
      simp only [hexQuad?_control hcontrol]
    · simp only [escapedChar, hquote, hslash, hb, ht, hn, hf, hr, if_false, hcontrol,
        List.cons_append, List.nil_append]
      simp [scanString, hslash, hcontrol]

theorem scanString_escaped (cs rest : List Char) :
    scanString (cs.flatMap escapedChar ++ '"' :: rest) = some (cs.map Char.toNat, rest) := by
  induction cs with
  | nil => rfl
  | cons c _ ih =>
    rw [List.flatMap_cons, List.append_assoc, scanString_escapedChar, ih]
    rfl

theorem not_isHalf (c : Char) : isHighHalf c.toNat = false ∧ isLowHalf c.toNat = false := by
  have hvalid : c.toNat < 0xd800 ∨ 0xdfff < c.toNat ∧ c.toNat < 0x110000 := c.valid
  simp only [isHighHalf, isLowHalf, Bool.and_eq_false_iff, decide_eq_false_iff_not]
  omega

theorem joinPairs_toNat (cs : List Char) : joinPairs (cs.map Char.toNat) = some cs := by
  induction cs with
  | nil => rfl
  | cons c cs ih =>
    obtain ⟨hhigh, hlow⟩ := not_isHalf c
    cases cs with
    | nil => simp [joinPairs, hhigh, hlow]
    | cons d _ =>
      simp only [List.map_cons] at ih ⊢
      simp [joinPairs, hhigh, hlow, ih]

/-! ### Blanks -/

variable {blanks cs rest : List Char} {j : Json}

theorem skipBlanks_append (h : ∀ c ∈ blanks, isBlank c = true) :
    skipBlanks (blanks ++ cs) = skipBlanks cs :=
  List.dropWhile_append_of_pos h

theorem skipBlanks_cons {c : Char} (h : isBlank c = false) : skipBlanks (c :: cs) = c :: cs := by
  simp [skipBlanks, h]

theorem isBlank_gap {indented : Bool} {level : Nat} :
    ∀ c ∈ gap indented level, isBlank c = true := by
  cases indented with
  | false => simp [gap]
  | true =>
    intro c hc
    rcases List.mem_cons.mp hc with rfl | hc
    · decide
    · rw [List.eq_of_mem_replicate hc]
      decide

theorem skipBlanks_gap (indented : Bool) (level : Nat) (cs : List Char) :
    skipBlanks (gap indented level ++ cs) = skipBlanks cs :=
  skipBlanks_append isBlank_gap

theorem value_blanks (h : ∀ c ∈ blanks, isBlank c = true) (fuel : Nat) :
    value fuel (blanks ++ cs) = value fuel cs := by
  cases fuel with
  | zero => rfl
  | succ _ => rw [value, value, skipBlanks_append h]

theorem member_blanks (h : ∀ c ∈ blanks, isBlank c = true) (fuel : Nat) :
    member fuel (blanks ++ cs) = member fuel cs := by
  cases fuel with
  | zero => rfl
  | succ _ => rw [member, member, skipBlanks_append h]

/-! ### Values -/

mutual

/-- The value has no flaws, and its numbers are well formed. -/
@[simp] def Plain : Json → Prop
  | .null | .bool _ | .string _ => True
  | .number n => n.WellFormed
  | .array items => PlainItems items
  | .object members => PlainMembers members
  | .flaw _ => False

@[simp] def PlainItems : List Json → Prop
  | [] => True
  | v :: vs => v.Plain ∧ PlainItems vs

@[simp] def PlainMembers : List (String × Json) → Prop
  | [] => True
  | (_, v) :: ms => v.Plain ∧ PlainMembers ms

end

/-- The characters that another value than a number starts with, or that end an array, and the
blanks. -/
def marks : List Char := ['[', ']', '\x7b', '"', 'n', 't', 'f', ' ', '\t', '\n', '\r']

theorem numeral_chars_eq_cons {n : Numeral} (hn : n.WellFormed) :
    ∃ d cs, n.chars = d :: cs ∧ d ∉ marks := by
  have hmarks : ∀ c ∈ marks, c.isDigit = false := by
    have hall : marks.all (!·.isDigit) = true := by decide
    simpa using hall
  obtain ⟨negative, whole, _, _⟩ := n
  cases negative with
  | true => exact ⟨'-', _, rfl, by decide⟩
  | false =>
    cases whole with
    | nil => exact absurd rfl hn.whole.ne_nil
    | cons d _ =>
      have hd : d.isDigit = true := hn.whole.isDigit d List.mem_cons_self
      refine ⟨d, _, rfl, fun hmem => ?_⟩
      rw [hmarks d hmem] at hd
      cases hd

theorem chars_eq_cons (indented : Bool) (level : Nat) (h : j.Plain) :
    ∃ c cs, chars indented level j = c :: cs ∧ isBlank c = false ∧ c ≠ ']' := by
  cases j with
  | null | string s => exact ⟨_, _, rfl, by decide, by decide⟩
  | bool b => cases b <;> exact ⟨_, _, rfl, by decide, by decide⟩
  | number n =>
    obtain ⟨d, cs, hchars, _⟩ := numeral_chars_eq_cons h
    refine ⟨d, cs, hchars, ?_, ?_⟩
    · simp_all [marks, isBlank]
    · simp_all [marks]
  | array items => cases items <;> exact ⟨_, _, rfl, by decide, by decide⟩
  | object members =>
    rcases members with _ | ⟨⟨_, v⟩, _⟩ <;> exact ⟨_, _, rfl, by decide, by decide⟩
  | flaw _ => exact h.elim

theorem skipBlanks_chars (indented : Bool) (level : Nat) {j : Json} (h : j.Plain)
    (rest : List Char) :
    skipBlanks (chars indented level j ++ rest) = chars indented level j ++ rest := by
  obtain ⟨c, _, hchars, hblank, -⟩ := chars_eq_cons indented level h
  rw [hchars]
  exact skipBlanks_cons hblank

theorem ends_gap_append (indented : Bool) (level : Nat) {c : Char}
    (hc : c.isDigit = false ∧ c ≠ '.' ∧ c ≠ 'e' ∧ c ≠ 'E') (rest : List Char) :
    Ends (gap indented level ++ c :: rest) := by
  cases indented with
  | false =>
    rintro d ⟨⟩
    exact hc
  | true =>
    rintro d ⟨⟩
    decide

theorem ends_itemsChars (indented : Bool) (level : Nat) (vs : List Json) (rest : List Char) :
    Ends (itemsChars indented level vs ++ rest) := by
  cases vs with
  | nil =>
    rw [itemsChars, List.append_assoc]
    exact ends_gap_append indented level (by decide) rest
  | cons v _ =>
    rintro d ⟨⟩
    decide

theorem ends_membersChars (indented : Bool) (level : Nat) (ms : List (String × Json))
    (rest : List Char) : Ends (membersChars indented level ms ++ rest) := by
  rcases ms with _ | ⟨⟨_, v⟩, _⟩
  · rw [membersChars, List.append_assoc]
    exact ends_gap_append indented level (by decide) rest
  · rw [membersChars]
    rintro d ⟨⟩
    decide

theorem value_number {n : Numeral} (hn : n.WellFormed) (fuel : Nat) {rest : List Char}
    (hrest : Ends rest) : value (fuel + 1) (n.chars ++ rest) = (.number n, some rest) := by
  have hskip := skipBlanks_chars false 0 (j := .number n) hn rest
  have hscan := Numeral.scan_chars hn hrest
  obtain ⟨d, _, hchars, hd⟩ := numeral_chars_eq_cons hn
  rw [chars, hchars, List.cons_append] at hskip
  rw [hchars, List.cons_append] at hscan ⊢
  rw [value, hskip]
  simp only [marks, List.mem_cons, not_or] at hd
  split <;> simp_all

theorem member_chars (indented : Bool) (key : String) {v : Json} {fuel : Nat}
    (h : value fuel cs = (v, some rest)) :
    member (fuel + 1) (stringChars key ++ (colon indented ++ cs)) = ((key, v), some rest) := by
  have hvalue : value fuel ((colon indented).tail ++ cs) = (v, some rest) := by
    rw [value_blanks, h]
    exact List.all_eq_true.mp (by cases indented <;> decide)
  have hcolon : colon indented ++ cs = ':' :: ((colon indented).tail ++ cs) := by
    cases indented <;> rfl
  simp only [stringChars, List.cons_append, List.append_assoc, List.nil_append]
  rw [member, skipBlanks_cons (by decide)]
  simp only [scanString_escaped, hcolon, skipBlanks_cons (show isBlank ':' = false by decide),
    hvalue, joinPairs_toNat, String.ofList_toList]

mutual

/-- What is written for a value is read as that value, in at most as many steps as it has
characters. -/
theorem value_chars (indented : Bool) : (level : Nat) → (j : Json) → j.Plain → (fuel : Nat) →
    (chars indented level j).length ≤ fuel → {rest : List Char} → Ends rest →
    value fuel (chars indented level j ++ rest) = (j, some rest)
  | _, .null, _, _ + 1, _, _, _ => rfl
  | level, .bool true, _, fuel + 1, _, rest, _ | level, .bool false, _, fuel + 1, _, rest, _
  | level, .array [], _, fuel + 1, _, rest, _ | level, .object [], _, fuel + 1, _, rest, _ => rfl
  | _, .number n, h, fuel + 1, _, _, hrest => value_number h fuel hrest
  | _, .string s, _, _ + 1, _, _, _ => by
    simp only [chars, stringChars, List.cons_append, List.append_assoc, List.nil_append]
    rw [value, skipBlanks_cons (by decide)]
    simp only [scanString_escaped, joinPairs_toNat, String.ofList_toList]
  | level, .array (v :: vs), ⟨hv, hvs⟩, fuel + 1, hfuel, rest, _ => by
    simp only [chars, List.length_cons, List.length_append] at hfuel
    have hfirst := value_chars indented (level + 1) v hv fuel (by omega)
      (ends_itemsChars indented level vs rest)
    have hothers := items_itemsChars indented level vs hvs fuel (by omega) rest
    obtain ⟨c, cs, hchars, hblank, hend⟩ := chars_eq_cons indented (level + 1) hv
    simp only [chars, List.cons_append, List.append_assoc]
    rw [value, skipBlanks_cons (by decide)]
    simp only [skipBlanks_gap, skipBlanks_chars indented (level + 1) hv]
    split
    · simp_all
    · simp_all
  | level, .object ((key, v) :: ms), ⟨hv, hms⟩, fuel + 1, hfuel, rest, _ => by
    simp only [chars, List.length_cons, List.length_append, stringChars] at hfuel
    have hvalue := value_chars indented (level + 1) v hv (fuel - 1) (by omega)
      (ends_membersChars indented level ms rest)
    have hfirst := member_chars indented key hvalue
    rw [Nat.sub_add_cancel (by omega)] at hfirst
    have hothers := members_membersChars indented level ms hms fuel (by omega) rest
    simp only [chars, List.cons_append, List.append_assoc]
    rw [value, skipBlanks_cons (by decide)]
    simp only [skipBlanks_gap, stringChars, List.cons_append,
      skipBlanks_cons (show isBlank '"' = false by decide)] at hfirst ⊢
    split
    · simp_all
    · simp_all
  | level, j, h, 0, hfuel, _, _ => by
    obtain ⟨c, cs, hchars, -, -⟩ := chars_eq_cons indented level h
    rw [hchars] at hfuel
    cases hfuel

theorem items_itemsChars (indented : Bool) : (level : Nat) → (vs : List Json) → PlainItems vs →
    (fuel : Nat) → (itemsChars indented level vs).length ≤ fuel → (rest : List Char) →
    items fuel (itemsChars indented level vs ++ rest) = (vs, some rest)
  | _, [], _, _ + 1, _, _ => by
    simp only [itemsChars, List.append_assoc]
    rw [items, skipBlanks_gap]
    rfl
  | level, v :: vs, ⟨hv, hvs⟩, fuel + 1, hfuel, rest => by
    simp only [itemsChars, List.length_cons, List.length_append] at hfuel
    have hfirst := value_chars indented (level + 1) v hv fuel (by omega)
      (ends_itemsChars indented level vs rest)
    have hothers := items_itemsChars indented level vs hvs fuel (by omega) rest
    simp only [itemsChars, List.cons_append, List.append_assoc]
    rw [items, skipBlanks_cons (by decide)]
    simp only [value_blanks isBlank_gap, hfirst, hothers]
  | level, [], _, 0, hfuel, rest | level, v :: vs, _, 0, hfuel, rest => by
    simp [itemsChars] at hfuel

theorem members_membersChars (indented : Bool) : (level : Nat) → (ms : List (String × Json)) →
    PlainMembers ms → (fuel : Nat) → (membersChars indented level ms).length ≤ fuel →
    (rest : List Char) → members fuel (membersChars indented level ms ++ rest) = (ms, some rest)
  | _, [], _, _ + 1, _, _ => by
    simp only [membersChars, List.append_assoc]
    rw [members, skipBlanks_gap]
    rfl
  | level, (key, v) :: ms, ⟨hv, hms⟩, fuel + 1, hfuel, rest => by
    simp only [membersChars, List.length_cons, List.length_append, stringChars] at hfuel
    have hvalue := value_chars indented (level + 1) v hv (fuel - 1) (by omega)
      (ends_membersChars indented level ms rest)
    have hfirst := member_chars indented key hvalue
    rw [Nat.sub_add_cancel (by omega)] at hfirst
    have hothers := members_membersChars indented level ms hms fuel (by omega) rest
    simp only [membersChars, List.cons_append, List.append_assoc]
    rw [members, skipBlanks_cons (by decide)]
    simp only [member_blanks isBlank_gap, hfirst, hothers]
  | level, [], _, 0, hfuel, rest | level, (key, v) :: ms, _, 0, hfuel, rest => by
    simp [membersChars] at hfuel

end

/-- Both layouts of a value are read as that value. -/
theorem read_chars (indented : Bool) (h : j.Plain) :
    read (String.ofList (j.chars indented 0)) = (j, true) := by
  have hvalue := value_chars indented 0 j h _ (Nat.le_succ _) (show Ends [] by rintro c ⟨⟩)
  rw [List.append_nil] at hvalue
  rw [read, String.toList_ofList, String.length_ofList, hvalue]
  rfl

theorem read_compact (h : j.Plain) : read j.compact = (j, true) := read_chars false h

theorem read_pretty (h : j.Plain) : read j.pretty = (j, true) := read_chars true h

end Laye.Json
