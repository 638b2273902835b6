import Laye.Proofs.Decimal.Scanning
import Laye.Type.Builtin

/-!
# Which words are built-in types

The table of built-in types (`Builtin.ofKeyword`) against the types it is for. A keyword spells a
type (`Spells`) when it is the text of the type; in front of a width it may have zeros, so `i08`
spells the same type as `i8`. A keyword with a width is refused (`Refused`) when no type of its
letter has that width, and, whatever its letter, when the width is beyond 32 bits.
-/

namespace Laye.Builtin

open Numeral (digitsValue)

/-- The types that are written as a word. -/
def plainTypes : List Ty :=
  [.void, .bool, .rune, .int true, .int false, .float, .rawptr, .string]

/-- The types that are written as a letter and a width. -/
def sizedTypes : List Ty :=
  integerWidths.map (.sizedInt true) ++ integerWidths.map (.sizedInt false) ++
    floatWidths.map .sizedFloat

/-- The keyword is a character followed by a number. -/
structure HasWidth (keyword : String) (letter : Char) (digits : List Char) : Prop where
  toList : keyword.toList = letter :: digits
  ne_nil : digits ≠ []
  isDigit : ∀ c ∈ digits, c.isDigit = true

/-- The keyword is the text of the type, up to zeros in front of a width. -/
inductive Spells (keyword : String) (ty : Ty) : Prop
  | plain (hty : ty ∈ plainTypes) (htext : keyword = ty.text)
  | sized (hty : ty ∈ sizedTypes) {letter : Char} {width : List Char} (zeros : Nat)
    (htext : ty.text.toList = letter :: width)
    (hkeyword : keyword.toList = letter :: (List.replicate zeros '0' ++ width))

/-- The keyword has a width that is refused, and `bits` is the width that is reported. -/
def Refused (keyword : String) (bits : Nat) : Prop :=
  ∃ letter digits, HasWidth keyword letter digits ∧ bits = min (digitsValue digits) widestWidth ∧
    (widestWidth < digitsValue digits ∨
      letter ∈ ['i', 'u', 'f'] ∧ ∀ ty, ¬ Spells keyword ty)

/-! ### Digits -/

theorem toDigits_of_isDigit {d : Char} (h : d.isDigit = true) :
    d.toNat - '0'.toNat < 10 ∧ Nat.toDigits 10 (d.toNat - '0'.toNat) = [d] := by
  have hall : ∀ n < 10, n.digitChar.toNat = n + '0'.toNat := by decide
  have hzero : '0'.toNat = 48 := rfl
  have hbounds : 48 ≤ d.toNat ∧ d.toNat ≤ 57 := by
    simp only [Char.isDigit, Bool.and_eq_true, decide_eq_true_eq] at h
    exact h
  have hlt : d.toNat - '0'.toNat < 10 := by omega
  have hchar : (d.toNat - '0'.toNat).digitChar = d := by
    rw [← Char.toNat_inj, hall _ hlt]
    omega
  exact ⟨hlt, by rw [Nat.toDigits_of_lt_base hlt, hchar]⟩

variable {digits : List Char}

theorem toDigits_append {n : Nat} (hn : 0 < n) (hdigits : ∀ c ∈ digits, c.isDigit = true) :
    Nat.toDigits 10 n ++ digits =
      Nat.toDigits 10 (digits.foldl (fun n d => 10 * n + (d.toNat - '0'.toNat)) n) := by
  induction digits generalizing n with
  | nil => exact List.append_nil _
  | cons d _ ih =>
    rw [List.forall_mem_cons] at hdigits
    obtain ⟨hlt, hd⟩ := toDigits_of_isDigit hdigits.1
    rw [List.foldl_cons, ← ih (by omega) hdigits.2,
      ← Nat.toDigits_append_toDigits (by decide) hn hlt, hd, List.append_assoc]
    rfl

theorem eq_zeros_append (hne : digits ≠ []) (hdigits : ∀ c ∈ digits, c.isDigit = true) :
    ∃ zeros, digits = List.replicate zeros '0' ++ Nat.toDigits 10 (digitsValue digits) := by
  induction digits with
  | nil => exact absurd rfl hne
  | cons d ds ih =>
    rw [List.forall_mem_cons] at hdigits
    obtain ⟨-, hd⟩ := toDigits_of_isDigit hdigits.1
    by_cases hzero : d = '0'
    · subst hzero
      by_cases hds : ds = []
      · exact ⟨0, by rw [hds]; rfl⟩
      · obtain ⟨zeros, hzeros⟩ := ih hds hdigits.2
        exact ⟨zeros + 1, congrArg ('0' :: ·) hzeros⟩
    · have hpos : 0 < d.toNat - '0'.toNat := by
        refine Nat.pos_of_ne_zero fun hvalue => hzero ?_
        rw [hvalue, Nat.toDigits_zero] at hd
        exact (List.cons.inj hd).1.symm
      refine ⟨0, ?_⟩
      have happend := toDigits_append hpos hdigits.2
      rw [hd] at happend
      simpa [digitsValue, Numeral.digit] using happend

theorem digitsValue_zeros_append (zeros : Nat) (digits : List Char) :
    digitsValue (List.replicate zeros '0' ++ digits) = digitsValue digits := by
  induction zeros with
  | zero => rfl
  | succ _ ih => exact ih

/-! ### The table -/

variable {keyword : String} {letter : Char} {digits : List Char} {ty : Ty} {bits : Nat}

theorem ofKeyword_text : ∀ ty ∈ plainTypes, ofKeyword ty.text = .type ty := by
  decide +kernel

theorem ofKeyword_cases (keyword : String) :
    (∃ ty ∈ plainTypes, keyword = ty.text) ∨ (∃ letter digits, HasWidth keyword letter digits) ∨
      ofKeyword keyword = .unknown := by
  unfold ofKeyword
  split
  case h_9 =>
    refine .inr ?_
    unfold ofSized
    split
    · rename_i letter digits htoList
      split
      · exact .inr rfl
      · rename_i hdigits
        simp only [Bool.or_eq_true, List.isEmpty_iff, Bool.not_eq_true', not_or, Bool.not_eq_false,
          List.all_eq_true] at hdigits
        exact .inl ⟨letter, digits, htoList, hdigits.1, hdigits.2⟩
    · exact .inr rfl
  all_goals exact .inl (by decide +kernel)

theorem HasWidth.ofKeyword_eq (h : HasWidth keyword letter digits) :
    ofKeyword keyword =
      if widestWidth < digitsValue digits then .unsupportedWidth keyword widestWidth
      else match family? letter with
        | none => .unknown
        | some (make, widths) =>
          if digitsValue digits ∈ widths then .type (make (digitsValue digits))
          else .unsupportedWidth keyword (digitsValue digits) := by
  obtain ⟨d, ds, rfl⟩ := List.exists_cons_of_ne_nil h.ne_nil
  have hd := h.isDigit d List.mem_cons_self
  have hall : (d :: ds).all Char.isDigit = true := List.all_eq_true.mpr h.isDigit
  have hsized : ofKeyword keyword = ofSized keyword := by
    -- the second letter of no word is a digit
    unfold ofKeyword
    split <;> first | rfl | (have htoList := h.toList; simp at htoList; simp [← htoList] at hd)
  rw [hsized]
  unfold ofSized
  rw [h.toList]
  show (if ((d :: ds).isEmpty || !(d :: ds).all Char.isDigit) = true then _ else _) = _
  rw [hall]
  rfl

theorem ofKeyword_of_spells (h : Spells keyword ty) : ofKeyword keyword = .type ty := by
  cases h with
  | plain hty htext => exact htext ▸ ofKeyword_text ty hty
  | @sized hty letter width zeros htext hkeyword =>
    have hsized : ∀ ty ∈ sizedTypes, ty.text.toList.tail ≠ [] ∧
        ty.text.toList.tail.all Char.isDigit = true := by decide +kernel
    have hdigits := hsized ty hty
    rw [htext, List.tail_cons] at hdigits
    have hwidth : HasWidth keyword letter (List.replicate zeros '0' ++ width) := by
      refine ⟨hkeyword, fun hnil => hdigits.1 (List.append_eq_nil_iff.mp hnil).2, fun c hc => ?_⟩
      rcases List.mem_append.mp hc with hc | hc
      · exact Decimal.isDigit_replicate hc
      · exact List.all_eq_true.mp hdigits.2 c hc
    rw [hwidth.ofKeyword_eq, digitsValue_zeros_append]
    simp only [sizedTypes, integerWidths, floatWidths, List.map_cons, List.map_nil,
      List.cons_append,
      List.nil_append, List.mem_cons, List.not_mem_nil, or_false] at hty
    rcases hty with rfl | rfl | rfl | rfl | rfl | rfl | rfl | rfl | rfl | rfl <;>
      cases htext <;> rfl

theorem text_of_family? {make : Nat → Ty} {widths : List Nat}
    (h : family? letter = some (make, widths)) :
    letter ∈ ['i', 'u', 'f'] ∧
      ∀ bits ∈ widths, make bits ∈ sizedTypes ∧
        (make bits).text.toList = letter :: Nat.toDigits 10 bits := by
  unfold family? at h
  split at h <;> cases h <;>
    exact ⟨by decide, fun bits hbits => ⟨by simp [sizedTypes, hbits], by simp [Ty.text]⟩⟩

theorem spells_of_ofKeyword (h : ofKeyword keyword = .type ty) : Spells keyword ty := by
  rcases ofKeyword_cases keyword with ⟨ty', hty', rfl⟩ | ⟨_, _, hwidth⟩ | hunknown
  · cases h.symm.trans (ofKeyword_text ty' hty')
    exact .plain hty' rfl
  · rw [hwidth.ofKeyword_eq] at h
    split at h
    · cases h
    · split at h
      · cases h
      · rename_i _ _ hfamily
        split at h
        · rename_i hbits
          cases h
          obtain ⟨hty, htext⟩ := (text_of_family? hfamily).2 _ hbits
          obtain ⟨zeros, hzeros⟩ := eq_zeros_append hwidth.ne_nil hwidth.isDigit
          exact .sized hty zeros htext (hzeros ▸ hwidth.toList)
        · cases h
  · cases h.symm.trans hunknown

theorem mem_types_of_ofKeyword (h : ofKeyword keyword = .type ty) :
    ty ∈ plainTypes ++ sizedTypes := by
  rcases spells_of_ofKeyword h with ⟨hty, -⟩ | ⟨hty, -, -, -⟩
  · exact List.mem_append_left _ hty
  · exact List.mem_append_right _ hty

theorem ofKeyword_of_refused (h : Refused keyword bits) :
    ofKeyword keyword = .unsupportedWidth keyword bits := by
  obtain ⟨letter, _, hwidth, rfl, hcause⟩ := h
  have hanswer := hwidth.ofKeyword_eq
  split at hanswer
  · rename_i hwide
    rw [hanswer, Nat.min_eq_right (Nat.le_of_lt hwide)]
  · rename_i hwide
    obtain ⟨hletter, hnone⟩ := hcause.resolve_left hwide
    split at hanswer
    · rename_i hfamily
      have hsome : ['i', 'u', 'f'].all (fun letter => (family? letter).isSome) = true := by decide
      simpa [hfamily] using List.all_eq_true.mp hsome letter hletter
    · split at hanswer
      · exact absurd (spells_of_ofKeyword hanswer) (hnone _)
      · rw [hanswer, Nat.min_eq_left (Nat.le_of_not_lt hwide)]

theorem refused_of_ofKeyword {keyword' : String}
    (h : ofKeyword keyword = .unsupportedWidth keyword' bits) :
    keyword' = keyword ∧ Refused keyword bits := by
  rcases ofKeyword_cases keyword with ⟨ty, hty, rfl⟩ | ⟨letter, digits, hwidth⟩ | hunknown
  · cases h.symm.trans (ofKeyword_text ty hty)
  · have hanswer := h.symm.trans hwidth.ofKeyword_eq
    split at hanswer
    · rename_i hwide
      cases hanswer
      exact ⟨rfl, letter, digits, hwidth, by omega, .inl hwide⟩
    · split at hanswer
      · cases hanswer
      · rename_i hfamily
        split at hanswer
        · cases hanswer
        · cases hanswer
          refine ⟨rfl, letter, digits, hwidth, by omega,
            .inr ⟨(text_of_family? hfamily).1, fun ty hspells => ?_⟩⟩
          cases h.symm.trans (ofKeyword_of_spells hspells)
  · cases h.symm.trans hunknown

/-- A keyword is a type exactly if it spells one, it is refused for its width exactly if no type of
its letter has that width or the width is beyond 32 bits, and every other keyword is unknown. -/
theorem ofKeyword_classifies (keyword : String) :
    (∀ ty, ofKeyword keyword = .type ty ↔ Spells keyword ty) ∧
    (∀ keyword' bits, ofKeyword keyword = .unsupportedWidth keyword' bits ↔
      keyword' = keyword ∧ Refused keyword bits) ∧
    (ofKeyword keyword = .unknown ↔
      (∀ ty, ¬ Spells keyword ty) ∧ ∀ bits, ¬ Refused keyword bits) := by
  refine ⟨fun ty => ⟨spells_of_ofKeyword, ofKeyword_of_spells⟩, fun keyword' bits =>
    ⟨refused_of_ofKeyword, ?_⟩, fun hunknown => ⟨fun ty hspells => ?_, fun bits hrefused => ?_⟩, ?_⟩
  · rintro ⟨rfl, hrefused⟩
    exact ofKeyword_of_refused hrefused
  · cases hunknown.symm.trans (ofKeyword_of_spells hspells)
  · cases hunknown.symm.trans (ofKeyword_of_refused hrefused)
  · rintro ⟨hspells, hrefused⟩
    cases hanswer : ofKeyword keyword with
    | type ty => exact absurd (spells_of_ofKeyword hanswer) (hspells ty)
    | unsupportedWidth keyword' bits =>
      exact absurd (refused_of_ofKeyword hanswer).2 (hrefused bits)
    | unknown => rfl

/-- `i08` is taken for `i8`, whose text it is not, and a word that starts with another letter is
refused for its width instead of being unknown. -/
theorem ofKeyword_padded_and_vast :
    ofKeyword "i08" = .type (.sizedInt true 8) ∧ (Ty.sizedInt true 8).text ≠ "i08" ∧
      ofKeyword "x99999999999" = .unsupportedWidth "x99999999999" widestWidth := by
  decide +kernel

end Laye.Builtin
