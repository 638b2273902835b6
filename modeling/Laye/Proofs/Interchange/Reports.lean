import Laye.Interchange.Report
import Laye.Proofs.Interchange.Inverse

/-!
# The two layouts of a report

A report is written as JSON in two layouts. `Json.outside_chars` says that they differ only in
blanks outside strings: without these, what is left of any value is its compact form. The messages
of a report may hold anything, so a string is passed over as its reader does it, escape by escape.

`Report.inverts_decoder` is the law of reports. So both texts are decoded to the report itself.
-/

namespace Laye

namespace Json

/-! ### Blanks outside strings -/

mutual

/-- The text without its blanks, up to the next string. -/
def outside : List Char → List Char
  | [] => []
  | c :: cs =>
    if c = '"' then c :: inside cs
    else if isBlank c then outside cs
    else c :: outside cs

/-- The text of a string as it is, and what follows without its blanks. -/
def inside : List Char → List Char
  | [] => []
  | '\\' :: c :: cs => '\\' :: c :: inside cs
  | c :: cs => if c = '"' then c :: outside cs else c :: inside cs

end

/-- The text without the blanks that stand outside its strings. -/
def deleteBlanks (text : String) : String := String.ofList (outside text.toList)

variable {cs rest : List Char}

theorem outside_of_forall (h : ∀ c ∈ cs, c ≠ '"' ∧ isBlank c = false) :
    outside (cs ++ rest) = cs ++ outside rest := by
  induction cs with
  | nil => rfl
  | cons c _ ih =>
    obtain ⟨⟨hquote, hblank⟩, h⟩ := List.forall_mem_cons.mp h
    simp [outside, hquote, hblank, ih h]

theorem outside_blanks (h : ∀ c ∈ cs, isBlank c = true) : outside (cs ++ rest) = outside rest := by
  induction cs with
  | nil => rfl
  | cons c _ ih =>
    obtain ⟨hblank, h⟩ := List.forall_mem_cons.mp h
    have hquote : c ≠ '"' := by
      rintro rfl
      cases hblank
    simp [outside, hquote, hblank, ih h]

theorem inside_escapedChar (c : Char) (rest : List Char) :
    inside (escapedChar c ++ rest) = escapedChar c ++ inside rest := by
  unfold escapedChar
  split_ifs with hquote hslash
  all_goals simp_all [inside]

/-- A string is left as it is. -/
theorem outside_stringChars (s : String) (rest : List Char) :
    outside (stringChars s ++ rest) = stringChars s ++ outside rest := by
  have hinside : ∀ cs : List Char, inside (cs.flatMap escapedChar ++ '"' :: rest) =
      cs.flatMap escapedChar ++ '"' :: outside rest := by
    intro cs
    induction cs with
    | nil => simp [inside]
    | cons c _ ih =>
      rw [List.flatMap_cons, List.append_assoc, inside_escapedChar, ih, List.append_assoc]
  simp [stringChars, outside, hinside]

theorem gap_compact (level : Nat) : gap false level = [] := rfl

theorem colon_compact : colon false = [':'] := rfl

theorem outside_gap (indented : Bool) (level : Nat) (rest : List Char) :
    outside (gap indented level ++ rest) = outside rest :=
  outside_blanks isBlank_gap

theorem outside_colon (indented : Bool) (rest : List Char) :
    outside (colon indented ++ rest) = ':' :: outside rest := by
  cases indented <;> simp [colon, outside, isBlank]

/-- A number has neither blanks nor quotes. -/
theorem numeral_chars_plain {n : Numeral} (hn : n.WellFormed) :
    ∀ c ∈ n.chars, c ≠ '"' ∧ isBlank c = false := by
  have hplain : ∀ c : Char, c.isDigit = true ∨ c = '-' ∨ c = '.' ∨ c = 'e' →
      c ≠ '"' ∧ isBlank c = false := by
    rintro c (hdigit | rfl | rfl | rfl)
    · have hmarks : ['"', ' ', '\t', '\n', '\r'].all (!·.isDigit) = true := by decide
      have hother : ∀ d ∈ ['"', ' ', '\t', '\n', '\r'], c ≠ d := by
        rintro d hd rfl
        simpa [hdigit] using List.all_eq_true.mp hmarks c hd
      simp_all [isBlank]
    all_goals decide
  intro c hc
  refine hplain c ?_
  obtain ⟨negative, whole, fraction, exponent⟩ := n
  simp only [Numeral.chars, List.mem_append] at hc
  rcases hc with ((hc | hc) | hc) | hc
  · cases negative <;> simp_all
  · exact .inl (hn.whole.isDigit c hc)
  · cases fraction with
    | nil => cases hc
    | cons d ds =>
      rcases List.mem_cons.mp hc with rfl | hc
      · exact .inr (.inr (.inl rfl))
      · exact .inl (hn.fraction c hc)
  · rcases exponent with _ | ⟨sign, ds⟩
    · cases hc
    · have hds := (hn.exponent _ rfl).2
      cases sign <;> simp only [Numeral.exponentChars, List.mem_cons] at hc <;> grind

mutual

/-- What is left of a value without the blanks outside its strings is its compact form. -/
theorem outside_chars (indented : Bool) : (level : Nat) → (j : Json) → j.Plain →
    (rest : List Char) →
    outside (chars indented level j ++ rest) = chars false level j ++ outside rest
  | _, .null, _, _ | _, .bool true, _, _ | _, .bool false, _, _ | _, .array [], _, _
  | _, .object [], _, _ => by simp [chars, outside, isBlank]
  | _, .number n, h, _ => outside_of_forall (numeral_chars_plain h)
  | _, .string s, _, rest => outside_stringChars s rest
  | level, .array (v :: vs), ⟨hv, hvs⟩, rest => by
    have hvalue := outside_chars indented (level + 1) v hv
    have hothers := outside_itemsChars indented level vs hvs rest
    simp [chars, outside, isBlank, outside_gap, hvalue, hothers, gap_compact]
  | level, .object ((_, v) :: ms), ⟨hv, hms⟩, rest => by
    have hvalue := outside_chars indented (level + 1) v hv
    have hothers := outside_membersChars indented level ms hms rest
    simp [chars, outside, isBlank, outside_gap, outside_stringChars, outside_colon, hvalue, hothers,
      gap_compact, colon_compact]

theorem outside_itemsChars (indented : Bool) : (level : Nat) → (vs : List Json) → PlainItems vs →
    (rest : List Char) →
    outside (itemsChars indented level vs ++ rest) = itemsChars false level vs ++ outside rest
  | _, [], _, _ => by simp [itemsChars, outside, isBlank, outside_gap, gap_compact]
  | level, v :: vs, ⟨hv, hvs⟩, rest => by
    have hvalue := outside_chars indented (level + 1) v hv
    have hothers := outside_itemsChars indented level vs hvs rest
    simp [itemsChars, outside, isBlank, outside_gap, hvalue, hothers, gap_compact]

theorem outside_membersChars (indented : Bool) : (level : Nat) → (ms : List (String × Json)) →
    PlainMembers ms → (rest : List Char) →
    outside (membersChars indented level ms ++ rest) = membersChars false level ms ++ outside rest
  | _, [], _, _ => by simp [membersChars, outside, isBlank, outside_gap, gap_compact]
  | level, (_, v) :: ms, ⟨hv, hms⟩, rest => by
    have hvalue := outside_chars indented (level + 1) v hv
    have hothers := outside_membersChars indented level ms hms rest
    simp [membersChars, outside, isBlank, outside_gap, outside_stringChars, outside_colon, hvalue,
      hothers, gap_compact, colon_compact]

end

theorem deleteBlanks_pretty {j : Json} (h : j.Plain) : deleteBlanks j.pretty = j.compact := by
  have houtside := outside_chars true 0 j h []
  simp only [List.append_nil, outside] at houtside
  rw [deleteBlanks, pretty, String.toList_ofList, houtside, compact]

end Json

/-! ### Reports -/

namespace Report

open Decoder (inverts_string inverts_bool inverts_natBelow inverts_enumeration maxDepth)
open Record (inverts_field inverts_optional)

/-- The numbers of a place. -/
def Place.leaves (p : Place) : List Leaf :=
  [.word 32 p.line, .word 32 p.column, .word 32 p.endLine, .word 32 p.endColumn]

/-- The numbers of an entry. -/
def Entry.leaves (e : Entry) : List Leaf := e.location.toList.flatMap Place.leaves

/-- The numbers of statistics. -/
def Stats.leaves (s : Stats) : List Leaf :=
  [.word 64 s.checkTimeMs, .word 64 s.lowerTimeMs, .word 64 s.functions, .word 64 s.externals,
    .word 64 s.types, .word 64 s.errors, .word 64 s.warnings]

/-- The numbers of a report. -/
def leaves (r : Report) : List Leaf := r.entries.flatMap Entry.leaves ++ r.stats.leaves

variable (limit : Nat)

theorem Place.inverts_decoder : Place.decoder.Inverts limit Place.toJson Place.leaves := by
  have hword := inverts_natBelow limit 32
  have hrecord := (inverts_field (inverts_string limit) "file").and
    ((inverts_field hword "line").and ((inverts_field hword "column").and
      ((inverts_field hword "end_line").and (inverts_field hword "end_column") (by decide))
        (by decide)) (by decide)) (by decide)
  exact (hrecord.map (g := fun p : Place => (p.file, p.line, p.column, p.endLine, p.endColumn))
    (fun _ => rfl) fun _ => rfl).decoder

theorem Entry.inverts_decoder : Entry.decoder.Inverts limit Entry.toJson Entry.leaves := by
  have hseverity : Severity.decoder.Inverts limit (fun s => .string s.name) fun _ => [] :=
    inverts_enumeration limit fun s => by cases s <;> rfl
  have hrecord := (inverts_field hseverity "severity").and
    ((inverts_field (inverts_string limit) "message").and
      (inverts_optional (Place.inverts_decoder limit) (fun _ h => by cases h) "location")
        (by decide)) (by decide)
  exact (hrecord.map (g := fun e : Entry => (e.severity, e.message, e.location)) (fun _ => rfl)
    fun _ => rfl).decoder

theorem Stats.inverts_decoder : Stats.decoder.Inverts limit Stats.toJson Stats.leaves := by
  have hword := inverts_natBelow limit 64
  have hrecord := (inverts_field hword "check_time_ms").and
    ((inverts_field hword "lower_time_ms").and ((inverts_field hword "function_count").and
      ((inverts_field hword "extern_count").and ((inverts_field hword "type_count").and
        ((inverts_field hword "error_count").and (inverts_field hword "warning_count")
          (by decide)) (by decide)) (by decide)) (by decide)) (by decide)) (by decide)
  exact (hrecord.map (g := fun s : Stats => (s.checkTimeMs, s.lowerTimeMs, s.functions, s.externals,
    s.types, s.errors, s.warnings)) (fun _ => rfl) fun _ => rfl).decoder

theorem inverts_decoder : decoder.Inverts limit toJson leaves := by
  have hrecord := (inverts_field (inverts_bool limit) "success").and
    ((inverts_field (inverts_string limit).list "sources").and
      ((inverts_field (Entry.inverts_decoder limit).list "diagnostics").and
        (inverts_field (Stats.inverts_decoder limit) "stats") (by decide)) (by decide)) (by decide)
  -- The names of the sources have leaves as all parts do: none.
  have hlaw : decoder.Inverts limit toJson fun r => r.sources.flatMap (fun _ => []) ++ r.leaves :=
    (hrecord.map (g := fun r : Report => (r.success, r.sources, r.entries, r.stats))
      (fun _ => rfl) fun _ => rfl).decoder
  have hnone : ∀ names : List String, names.flatMap (fun _ => ([] : List Leaf)) = [] :=
    fun _ => List.flatMap_eq_nil_iff.mpr fun _ _ => rfl
  simpa only [hnone, List.nil_append] using hlaw

/-- Reports nest less deeply than any text may. -/
theorem nesting_le (r : Report) : r.toJson.nesting ≤ maxDepth := by
  have hsources : Json.nestingItems (r.sources.map .string) ≤ 0 :=
    Decoder.nestingItems_le fun _ _ => Nat.le_refl _
  have hentries : Json.nestingItems (r.entries.map Entry.toJson) ≤ 2 := by
    refine Decoder.nestingItems_le fun e _ => ?_
    cases hlocation : e.location <;>
      simp [Entry.toJson, Place.toJson, Json.option, Json.nat, hlocation]
  simp only [toJson, Stats.toJson, Json.nat, Json.nesting, Json.nestingMembers, maxDepth]
  omega

/-- There are no floats in a report. -/
theorem readsBack (r : Report) : ∀ leaf ∈ r.leaves, leaf.ReadsBack := by
  have hplace : ∀ p : Place, ∀ leaf ∈ p.leaves, leaf.ReadsBack := by
    simp [Place.leaves, Leaf.ReadsBack]
  have hstats : ∀ leaf ∈ r.stats.leaves, leaf.ReadsBack := by simp [Stats.leaves, Leaf.ReadsBack]
  refine List.forall_mem_append.mpr ⟨fun leaf hleaf => ?_, hstats⟩
  obtain ⟨e, -, hleaf⟩ := List.mem_flatMap.mp hleaf
  obtain ⟨p, -, hleaf⟩ := List.mem_flatMap.mp hleaf
  exact hplace p leaf hleaf

/-- The two layouts of a report differ in blanks outside strings only, and both are read as the
report: as the same JSON value, and as the report itself. -/
theorem layouts_agree {r : Report} (h : ∀ leaf ∈ r.leaves, leaf.Valid) :
    Json.deleteBlanks r.pretty = r.compact ∧
    Json.read r.pretty = (r.toJson, true) ∧ Json.read r.compact = (r.toJson, true) ∧
    decoder.run r.pretty = .ok r ∧ decoder.run r.compact = .ok r := by
  have hleaves : ∀ leaf ∈ r.leaves, leaf.Valid ∧ leaf.ReadsBack :=
    fun leaf hleaf => ⟨h leaf hleaf, readsBack r leaf hleaf⟩
  obtain ⟨hplain, hdecode⟩ := (inverts_decoder maxDepth).reads r maxDepth (Nat.le_refl _) hleaves
    (nesting_le r)
  have hpretty : Json.read r.pretty = (r.toJson, true) := Json.read_pretty hplain
  have hcompact : Json.read r.compact = (r.toJson, true) := Json.read_compact hplain
  refine ⟨Json.deleteBlanks_pretty hplain, hpretty, hcompact, ?_, ?_⟩
  · rw [Decoder.run_eq_ok, hpretty]
    exact ⟨hdecode, rfl⟩
  · rw [Decoder.run_eq_ok, hcompact]
    exact ⟨hdecode, rfl⟩

/-- A report with text that has to be escaped. -/
def sample : Report :=
  ⟨false, ["a \"b\".laye", ""],
    [⟨.error, "tab\t, \\ and\nnew line \x01", some ⟨"a \"b\".laye", 1, 2, 3, 4294967295⟩⟩,
      ⟨.information, "", none⟩], { errors := 1, types := 18446744073709551615 }⟩

theorem sample_layouts_agree : (∀ leaf ∈ sample.leaves, leaf.Valid) ∧
    Json.deleteBlanks sample.pretty = sample.compact ∧ decoder.run sample.pretty = .ok sample := by
  have h : ∀ leaf ∈ sample.leaves, leaf.Valid := by decide
  exact ⟨h, (layouts_agree h).1, (layouts_agree h).2.2.2.1⟩

end Report

end Laye
