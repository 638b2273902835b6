import Laye.Proofs.Interchange.Inverse

/-!
# Spans and the spans that join them

All spans come from `Span.between`, `Span.point`, `Span.nowhere`, their JSON form and `Span.combine`
(`Span.Made`), and all these keep the two ends in one source and in order. Among the spans of one
named source `combine` is a join: it covers both spans, and whatever covers both covers it.

Locations are compared by source and offset only, so two different locations may be level. Then
`Location.earlier` takes the first one and `Location.later` the second, and both are still
associative.

A span can be sliced out of a text if the text has character boundaries at both ends
(`Span.slice_eq_some_iff`). So the combined span of two that can be sliced can be sliced too.
-/

namespace Laye

/-! ### Locations of one source -/

namespace Location

variable {a b c : Location}

section

variable (h : a.source = b.source)
include h

theorem lt_iff : a < b ↔ a.offset < b.offset := by
  show a.source < b.source ∨ a.source = b.source ∧ a.offset < b.offset ↔ _
  rw [h]
  simp

theorem earlier_eq : a.earlier b = if b.offset < a.offset then b else a := by
  simp only [earlier, lt_iff h.symm]

theorem later_eq : a.later b = if b.offset < a.offset then a else b := by
  simp only [later, lt_iff h.symm]

theorem source_earlier : (a.earlier b).source = a.source := by
  unfold earlier
  split
  · exact h.symm
  · rfl

theorem source_later : (a.later b).source = a.source := by
  unfold later
  split
  · rfl
  · exact h.symm

theorem offset_earlier : (a.earlier b).offset = min a.offset b.offset := by
  rw [earlier_eq h]
  split <;> omega

theorem offset_later : (a.later b).offset = max a.offset b.offset := by
  rw [later_eq h]
  split <;> omega

end

theorem earlier_assoc (hab : a.source = b.source) (hbc : b.source = c.source) :
    (a.earlier b).earlier c = a.earlier (b.earlier c) := by
  have hac := hab.trans hbc
  rw [earlier_eq ((source_earlier hab).trans hac),
    earlier_eq (hab.trans (source_earlier hbc).symm), offset_earlier hab, offset_earlier hbc,
    earlier_eq hab, earlier_eq hbc]
  grind

theorem later_assoc (hab : a.source = b.source) (hbc : b.source = c.source) :
    (a.later b).later c = a.later (b.later c) := by
  have hac := hab.trans hbc
  rw [later_eq ((source_later hab).trans hac), later_eq (hab.trans (source_later hbc).symm),
    offset_later hab, offset_later hbc, later_eq hab, later_eq hbc]
  grind

end Location

namespace Span

/-! ### Joins -/

/-- The span lies in the source and its ends are in order. -/
def In (source : String) (s : Span) : Prop := s.Normalized ∧ s.source = source

/-- Both spans lie in one source, and the first one reaches over the second. -/
def Covers (s t : Span) : Prop :=
  s.source = t.source ∧ s.start.offset ≤ t.start.offset ∧ t.stop.offset ≤ s.stop.offset

variable {source : String} {a b c s t : Span}

theorem isNowhere_iff : s.isNowhere = true ↔ s = nowhere := beq_iff_eq

theorem nowhere_combine (a : Span) : nowhere.combine a = a := rfl

theorem combine_nowhere (a : Span) : a.combine nowhere = a := by
  unfold combine
  split
  · rename_i ha
    exact (isNowhere_iff.mp ha).symm
  · exact if_pos (.inl rfl)

theorem normalized_combine (ha : a.Normalized) (hb : b.Normalized) : (a.combine b).Normalized := by
  by_cases ha' : a.isNowhere = true
  · rw [isNowhere_iff.mp ha']
    exact hb
  by_cases hb' : b.isNowhere = true ∨ a.source ≠ b.source
  · rw [combine, if_neg ha', if_pos hb']
    exact ha
  · rw [combine, if_neg ha', if_neg hb']
    simp only [not_or, ne_eq, not_not] at hb'
    have hstart : a.start.source = b.start.source := hb'.2
    have hstop : a.stop.source = b.stop.source := ha.1.symm.trans (hstart.trans hb.1)
    refine ⟨?_, ?_⟩
    · exact (Location.source_earlier hstart).trans (ha.1.trans (Location.source_later hstop).symm)
    · have hle1 := ha.2
      rw [Location.offset_earlier hstart, Location.offset_later hstop]
      omega

theorem In.not_isNowhere (h : s.In source) (hne : source ≠ "") : ¬ s.isNowhere = true := by
  rw [isNowhere_iff]
  rintro rfl
  exact hne h.2.symm

section

variable (ha : a.In source) (hb : b.In source)
include ha hb

theorem In.start_eq : a.start.source = b.start.source :=
  ha.2.trans hb.2.symm

theorem In.stop_eq : a.stop.source = b.stop.source :=
  ha.1.1.symm.trans ((ha.start_eq hb).trans hb.1.1)

/-- The combined span of two in one named source has the earlier start and the later end. -/
theorem In.combine_eq (hne : source ≠ "") :
    a.combine b = ⟨a.start.earlier b.start, a.stop.later b.stop⟩ := by
  have hsource : a.source = b.source := ha.start_eq hb
  rw [combine, if_neg (ha.not_isNowhere hne), if_neg]
  rintro (hb' | hsource')
  · exact hb.not_isNowhere hne hb'
  · exact hsource' hsource

theorem In.offsets (hne : source ≠ "") :
    (a.combine b).start.offset = min a.start.offset b.start.offset ∧
      (a.combine b).stop.offset = max a.stop.offset b.stop.offset := by
  rw [ha.combine_eq hb hne]
  exact ⟨Location.offset_earlier (ha.start_eq hb), Location.offset_later (ha.stop_eq hb)⟩

theorem In.combine (hne : source ≠ "") : (a.combine b).In source := by
  refine ⟨normalized_combine ha.1 hb.1, ?_⟩
  rw [ha.combine_eq hb hne]
  exact (Location.source_earlier (ha.start_eq hb)).trans ha.2

theorem combine_covers (hne : source ≠ "") :
    (a.combine b).Covers a ∧ (a.combine b).Covers b ∧
      ∀ s : Span, s.Covers a → s.Covers b → s.Covers (a.combine b) := by
  obtain ⟨_, _⟩ := ha.offsets hb hne
  have hsource := (ha.combine hb hne).2
  refine ⟨⟨hsource.trans ha.2.symm, by omega, by omega⟩,
    ⟨hsource.trans hb.2.symm, by omega, by omega⟩, ?_⟩
  rintro s ⟨hsa, hstart1, hstop1⟩ ⟨-, hstart2, hstop2⟩
  exact ⟨hsa.trans (ha.2.trans hsource.symm), by omega, by omega⟩

end

/-- Combining is associative on the spans of one named source together with `nowhere`. -/
theorem combine_assoc (hne : source ≠ "") (ha : a = nowhere ∨ a.In source)
    (hb : b = nowhere ∨ b.In source) (hc : c = nowhere ∨ c.In source) :
    (a.combine b).combine c = a.combine (b.combine c) := by
  rcases ha with rfl | ha
  · rfl
  rcases hb with rfl | hb
  · rw [combine_nowhere, nowhere_combine]
  rcases hc with rfl | hc
  · rw [combine_nowhere, combine_nowhere]
  rw [(ha.combine hb hne).combine_eq hc hne, ha.combine_eq (hb.combine hc hne) hne,
    ha.combine_eq hb hne, hb.combine_eq hc hne]
  simp only [Location.earlier_assoc (ha.start_eq hb) (hb.start_eq hc),
    Location.later_assoc (ha.stop_eq hb) (hb.stop_eq hc)]

/-! ### The spans that there are -/

/-- The span is made from locations, read from JSON, or combined from such spans. -/
inductive Made : Span → Prop
  | between {a b : Location} {s : Span} : between a b = .ok s → Made s
  | point (a : Location) : Made (point a)
  | nowhere : Made nowhere
  | decoded {depth : Nat} {j : Json} {s : Span} : decoder depth j = .ok s → Made s
  | combine {a b : Span} : Made a → Made b → Made (a.combine b)

theorem Made.normalized (h : Made s) : s.Normalized := by
  induction h with
  | between h => exact (between_eq_ok h).1
  | point a | nowhere => exact ⟨rfl, Nat.le_refl _⟩
  | decoded h => exact ((inverts_decoder 0).gives h).1 (.span _) List.mem_cons_self
  | combine _ _ iha ihb => exact normalized_combine iha ihb

/-! ### Slices -/

/-- How many bytes characters take. -/
def bytes (cs : List Char) : Nat := (cs.map Char.utf8Size).sum

variable {n : Nat} {cs before after : List Char} {text x y : String}

@[simp] theorem bytes_append (cs ds : List Char) : bytes (cs ++ ds) = bytes cs + bytes ds := by
  simp [bytes]

theorem eq_nil_of_bytes (h : bytes cs = 0) : cs = [] := by
  cases cs with
  | nil => rfl
  | cons c _ =>
    have hpos := c.utf8Size_pos
    simp only [bytes, List.map_cons, List.sum_cons] at h
    omega

theorem utf8ByteSize_eq (s : String) : s.utf8ByteSize = bytes s.toList := by
  rw [← String.ofList_toList (s := s), String.toList_ofList]
  induction s.toList with
  | nil => rfl
  | cons c cs ih =>
    have hcons : String.ofList (c :: cs) = String.singleton c ++ String.ofList cs := by
      apply String.toList_inj.mp
      simp
    rw [hcons, String.utf8ByteSize_append, String.utf8ByteSize_singleton, ih]
    simp [bytes]

theorem splitBytes_eq_some_iff :
    splitBytes n cs = some (before, after) ↔ before ++ after = cs ∧ bytes before = n := by
  fun_induction splitBytes n cs generalizing before with
  | case1 _ =>
    simp only [Option.some.injEq, Prod.mk.injEq]
    constructor
    · rintro ⟨rfl, rfl⟩
      exact ⟨rfl, rfl⟩
    · rintro ⟨rfl, hzero⟩
      rw [eq_nil_of_bytes hzero]
      exact ⟨rfl, rfl⟩
  | case2 n =>
    simp only [reduceCtorEq, false_iff, not_and, List.append_eq_nil_iff]
    rintro ⟨rfl, -⟩ hsize
    cases hsize
  | case3 n c _ _ =>
    simp only [reduceCtorEq, false_iff, not_and]
    intro heq hsize
    cases before with
    | nil => cases hsize
    | cons d _ =>
      cases heq
      simp only [bytes, List.map_cons, List.sum_cons] at hsize
      omega
  | case4 n c _ _ ih =>
    simp only [Option.map_eq_some_iff, Prod.exists, Prod.mk.injEq]
    constructor
    · rintro ⟨before, rest, hrun, rfl, rfl⟩
      obtain ⟨rfl, hsize⟩ := ih.mp hrun
      refine ⟨rfl, ?_⟩
      simp only [bytes, List.map_cons, List.sum_cons] at hsize ⊢
      omega
    · rintro ⟨heq, hsize⟩
      cases before with
      | nil => cases hsize
      | cons d before =>
        cases heq
        refine ⟨before, after, ih.mpr ⟨rfl, ?_⟩, rfl, rfl⟩
        simp only [bytes, List.map_cons, List.sum_cons] at hsize ⊢
        omega

/-- A slice is what lies between two boundaries of the text. -/
theorem slice_eq_some_iff : s.slice text = some x ↔ s.start.offset ≤ s.stop.offset ∧
    ∃ before, before ++ x.toList <+: text.toList ∧ bytes before = s.start.offset ∧
      bytes (before ++ x.toList) = s.stop.offset := by
  unfold slice
  split
  · rename_i hle
    simp only [Option.bind_eq_some_iff, Option.map_eq_some_iff, Prod.exists, splitBytes_eq_some_iff,
      hle, true_and, length]
    constructor
    · rintro ⟨before, _, ⟨htext, hbefore⟩, covered, after, ⟨rfl, hcovered⟩, rfl⟩
      refine ⟨before, ⟨after, ?_⟩, hbefore, ?_⟩
      · rw [String.toList_ofList, List.append_assoc, htext]
      · rw [String.toList_ofList, bytes_append]
        omega
    · rintro ⟨before, ⟨after, htext⟩, hbefore, hboth⟩
      rw [bytes_append] at hboth
      refine ⟨before, x.toList ++ after, ⟨?_, hbefore⟩, x.toList, after, ⟨rfl, by omega⟩,
        String.ofList_toList⟩
      rw [← htext, List.append_assoc]
  · rename_i hle
    simp [hle]

/-- Of two beginnings of a text, the one with fewer bytes begins the other. -/
theorem prefix_of_bytes_le {ds : List Char} {text : List Char} (hc : cs <+: text) (hd : ds <+: text)
    (h : bytes cs ≤ bytes ds) : cs <+: ds := by
  rcases List.prefix_or_prefix_of_prefix hc hd with hpre | ⟨more, rfl⟩
  · exact hpre
  · rw [bytes_append] at h
    have hmore : more = [] := eq_nil_of_bytes (by omega)
    rw [hmore, List.append_nil]

/-- The text `x` stands in `z` after so many bytes. -/
def StandsAt (z : String) (offset : Nat) (x : String) : Prop :=
  ∃ before after, z = before ++ x ++ after ∧ before.utf8ByteSize = offset

/-- The slice of a span that covers another one holds the slice of that one. -/
theorem Covers.standsAt {z : String} (h : s.Covers t) (hs : s.slice text = some z)
    (ht : t.slice text = some x) : StandsAt z (t.start.offset - s.start.offset) x := by
  obtain ⟨-, outer, houter, _, _⟩ := slice_eq_some_iff.mp hs
  obtain ⟨-, inner, hinner, hstart', _⟩ := slice_eq_some_iff.mp ht
  obtain ⟨-, _, _⟩ := h
  obtain ⟨before, rfl⟩ := prefix_of_bytes_le ((List.prefix_append _ _).trans houter)
    ((List.prefix_append _ _).trans hinner) (by omega : bytes outer ≤ bytes inner)
  obtain ⟨after, hafter⟩ := prefix_of_bytes_le hinner houter (by omega)
  rw [List.append_assoc, List.append_assoc, List.append_cancel_left_eq] at hafter
  refine ⟨String.ofList before, String.ofList after, ?_, ?_⟩
  · apply String.toList_inj.mp
    simp [← hafter]
  · rw [utf8ByteSize_eq, String.toList_ofList]
    rw [bytes_append] at hstart'
    omega

/-- Where two spans can be sliced, so can the span that combines them. -/
theorem exists_slice_combine (ha : a.In source) (hb : b.In source) (hne : source ≠ "")
    (hx : a.slice text = some x) (hy : b.slice text = some y) :
    ∃ z, (a.combine b).slice text = some z := by
  obtain ⟨_, _⟩ := ha.offsets hb hne
  have hle := (ha.combine hb hne).1.2
  obtain ⟨-, before, hbefore, _, _⟩ := slice_eq_some_iff.mp hx
  obtain ⟨-, before', hbefore', _, _⟩ := slice_eq_some_iff.mp hy
  obtain ⟨first, hfirst, hsize⟩ : ∃ first, first <+: text.toList ∧
      bytes first = (a.combine b).start.offset := by
    rcases Nat.le_total a.start.offset b.start.offset with hle | _
    · exact ⟨before, (List.prefix_append _ _).trans hbefore, by omega⟩
    · exact ⟨before', (List.prefix_append _ _).trans hbefore', by omega⟩
  obtain ⟨last, hlast, _⟩ : ∃ last, last <+: text.toList ∧
      bytes last = (a.combine b).stop.offset := by
    rcases Nat.le_total a.stop.offset b.stop.offset with hle | _
    · exact ⟨_, hbefore', by omega⟩
    · exact ⟨_, hbefore, by omega⟩
  obtain ⟨z, rfl⟩ := prefix_of_bytes_le hfirst hlast (by omega)
  exact ⟨String.ofList z, slice_eq_some_iff.mpr
    ⟨hle, first, by rwa [String.toList_ofList], hsize, by rwa [String.toList_ofList]⟩⟩

/-- All spans have their ends in one source and in order. Combining gives the least span that covers
both, whose slice holds both slices. It has `nowhere` as its neutral element, and is associative. -/
theorem combine_joins :
    (∀ s, Made s → s.Normalized ∧ s.start.offset + s.length = s.stop.offset) ∧
    (∀ source, source ≠ "" → ∀ a b : Span, a.In source → b.In source →
      (a.combine b).In source ∧ (a.combine b).Covers a ∧ (a.combine b).Covers b ∧
      (∀ s : Span, s.Covers a → s.Covers b → s.Covers (a.combine b)) ∧
      ∀ text x y, a.slice text = some x → b.slice text = some y →
        ∃ z, (a.combine b).slice text = some z ∧
          StandsAt z (a.start.offset - (a.combine b).start.offset) x ∧
          StandsAt z (b.start.offset - (a.combine b).start.offset) y) ∧
    (∀ a, nowhere.combine a = a ∧ a.combine nowhere = a) ∧
    ∀ source, source ≠ "" → ∀ a b c : Span, (a = nowhere ∨ a.In source) →
      (b = nowhere ∨ b.In source) → (c = nowhere ∨ c.In source) →
        (a.combine b).combine c = a.combine (b.combine c) := by
  refine ⟨fun s hs => ⟨hs.normalized, Nat.add_sub_cancel' hs.normalized.2⟩, ?_,
    fun a => ⟨nowhere_combine a, combine_nowhere a⟩, fun _ hne _ _ _ => combine_assoc hne⟩
  intro source hne a b ha hb
  obtain ⟨hcovers, hcovers', hleast⟩ := combine_covers ha hb hne
  refine ⟨ha.combine hb hne, hcovers, hcovers', hleast, fun text x y hx hy => ?_⟩
  obtain ⟨z, hz⟩ := exists_slice_combine ha hb hne hx hy
  exact ⟨z, hz, hcovers.standsAt hz hx, hcovers'.standsAt hz hy⟩

/-- Two spans of one source, the second one around a character of two bytes. -/
theorem combine_joins_menu :
    let a : Span := ⟨⟨"menu", 0, 1, 1⟩, ⟨"menu", 2, 1, 3⟩⟩
    let b : Span := ⟨⟨"menu", 3, 1, 4⟩, ⟨"menu", 5, 1, 6⟩⟩
    a.slice "café" = some "ca" ∧ b.slice "café" = some "é" ∧
      ∃ z, (a.combine b).slice "café" = some z ∧ StandsAt z 0 "ca" ∧ StandsAt z 3 "é" := by
  intro a b
  have ha : a.In "menu" := ⟨⟨rfl, by decide⟩, rfl⟩
  have hb : b.In "menu" := ⟨⟨rfl, by decide⟩, rfl⟩
  have hx : a.slice "café" = some "ca" := by decide +kernel
  have hy : b.slice "café" = some "é" := by decide +kernel
  have hboth := (combine_joins.2.1 "menu" (by decide) a b ha hb).2.2.2.2 "café" "ca" "é" hx hy
  have hstart : (a.combine b).start.offset = 0 := by decide +kernel
  rw [hstart] at hboth
  exact ⟨hx, hy, hboth⟩

end Span

end Laye
