import Laye.Proofs.Decimal.Finite
import Laye.Proofs.Interchange.Decoding
import Laye.Proofs.Json.Reading

/-!
# Decoders that invert encoders

`Decoder.Inverts limit d encode leaves` relates a decoder to an encoder in both directions. What is
encoded is decoded to the same value, if it does not nest too deeply and the parts of the value that
not every text can hold (its `leaves`) are as they are read. And whatever is decoded, the value has
such leaves, and its encoding nests no deeper than the text it came from did.

There is a rule for each form of decoders. A record is read member by member, so the rule for two
groups of fields (`Record.Inverts.and`) asks for distinct names, and shows that each group finds its
own members.
-/

namespace Laye

/-! ### How deep a value nests -/

namespace Json

mutual

/-- How many containers nest in a value. -/
@[simp] def nesting : Json → Nat
  | .array items => nestingItems items + 1
  | .object members => nestingMembers members + 1
  | _ => 0

@[simp] def nestingItems : List Json → Nat
  | [] => 0
  | v :: vs => max v.nesting (nestingItems vs)

@[simp] def nestingMembers : List (String × Json) → Nat
  | [] => 0
  | (_, v) :: ms => max v.nesting (nestingMembers ms)

end

theorem nestingMembers_append (ms ns : List (String × Json)) :
    nestingMembers (ms ++ ns) = max (nestingMembers ms) (nestingMembers ns) := by
  induction ms with
  | nil => simp
  | cons m _ ih =>
    simp only [List.cons_append, nestingMembers, ih]
    omega

theorem plainMembers_append {ms ns : List (String × Json)} :
    PlainMembers (ms ++ ns) ↔ PlainMembers ms ∧ PlainMembers ns := by
  induction ms with
  | nil => simp
  | cons m _ ih => simp only [List.cons_append, PlainMembers, ih, and_assoc]

@[simp] theorem nesting_tagged (name : String) (j : Json) :
    (tagged name j).nesting = j.nesting + 1 := by
  simp [tagged]

@[simp] theorem plain_tagged (name : String) (j : Json) : (tagged name j).Plain ↔ j.Plain := by
  simp [tagged]

end Json

/-! ### Leaves -/

/-- The numeral of a number. -/
def Json.numeral? : Json → Option Numeral
  | .number n => some n
  | _ => none

/-- The parts of a value that not every text can hold as they are. -/
inductive Leaf where
  | span (s : Span)
  /-- A number for which there are so many bits. -/
  | word (bits n : Nat)
  | float (x : Float)

/-- The ends of the span lie in one source, in order. -/
def Span.Normalized (s : Span) : Prop :=
  s.start.source = s.stop.source ∧ s.start.offset ≤ s.stop.offset

namespace Leaf

/-- The leaf is one that can be read: a span is normalized, a number has at most as many bits as
there are for it, and a float is finite. -/
def Valid : Leaf → Prop
  | .span s => s.Normalized
  | .word bits n => n < Nat.pow 2 bits
  | .float x => x.isFinite = true

instance : DecidablePred Valid
  | .span s => inferInstanceAs (Decidable (s.start.source = s.stop.source ∧ _))
  | .word bits n => inferInstanceAs (Decidable (n < Nat.pow 2 bits))
  | .float x => inferInstanceAs (Decidable (x.isFinite = true))

/-- The decimal that is written for a float is read as that float. Decimals are read with a
significand of 64 bits, so this is not so for all floats. -/
def ReadsBack : Leaf → Prop
  | .float x => ∀ n ∈ (Json.float x).numeral?, n.toFloat? = some x
  | _ => True

instance : DecidablePred ReadsBack
  | .float x => inferInstanceAs (Decidable (∀ n ∈ (Json.float x).numeral?, n.toFloat? = some x))
  | .span _ | .word _ _ => inferInstanceAs (Decidable True)

end Leaf

variable {α β : Type}

/-! ### Decoders -/

namespace Decoder

/-- The decoder reads the value from the JSON value, while at most `limit` containers may nest. -/
def Reads (limit : Nat) (d : Decoder α) (leaves : List Leaf) (j : Json) (a : α) : Prop :=
  ∀ depth ≤ limit, (∀ leaf ∈ leaves, leaf.Valid ∧ leaf.ReadsBack) → j.nesting ≤ depth →
    j.Plain ∧ d depth j = .ok a

/-- What is encoded is read, while at most `limit` containers may nest. What is read has valid
leaves, and its encoding fits where it was read. -/
structure Inverts (limit : Nat) (d : Decoder α) (encode : α → Json) (leaves : α → List Leaf) :
    Prop where
  reads : ∀ a, d.Reads limit (leaves a) (encode a) a
  gives : d.Gives fun depth a => (∀ leaf ∈ leaves a, leaf.Valid) ∧ (encode a).nesting ≤ depth

variable {limit : Nat} {d : Decoder α} {encode : α → Json} {leaves : α → List Leaf}

variable {n depth : Nat}

theorem Inverts.mono (h : d.Inverts limit encode leaves) (hn : n ≤ limit) :
    d.Inverts n encode leaves :=
  ⟨fun a depth hdepth => h.reads a depth (by omega), h.gives⟩

theorem inverts_string (limit : Nat) : string.Inverts limit .string fun _ => [] := by
  refine ⟨fun s depth _ _ _ => ⟨trivial, rfl⟩, ?_⟩
  intro depth j s h
  exact ⟨by simp, Nat.zero_le depth⟩

theorem inverts_bool (limit : Nat) : bool.Inverts limit .bool fun _ => [] := by
  refine ⟨fun b depth _ _ _ => ⟨trivial, rfl⟩, ?_⟩
  intro depth j b h
  exact ⟨by simp, Nat.zero_le depth⟩

theorem natBelow_nat {bound : Nat} (h : n < bound) (depth : Nat) :
    natBelow bound depth (.nat n) = .ok n := by
  simp only [Json.nat, natBelow, Numeral.natural?_ofNat, if_pos h]

theorem inverts_natBelow (limit bits : Nat) :
    (natBelow (Nat.pow 2 bits)).Inverts limit .nat fun n => [.word bits n] := by
  constructor
  · intro n depth _ hleaves _
    have hlt : n < Nat.pow 2 bits := (hleaves (.word bits n) List.mem_cons_self).1
    exact ⟨Numeral.wellFormed_ofNat n, natBelow_nat hlt depth⟩
  · intro depth j n h
    refine ⟨?_, Nat.zero_le depth⟩
    rintro leaf (_ | ⟨_, ⟨⟩⟩)
    exact gives_natBelow _ h

theorem inverts_float (limit : Nat) : float.Inverts limit .float fun x => [.float x] := by
  constructor
  · intro x depth _ hleaves _
    obtain ⟨hfinite, hback⟩ := hleaves (.float x) List.mem_cons_self
    obtain ⟨negative, m, q, hclass⟩ := Numeral.floatClass_of_isFinite hfinite
    have hfloat : Json.float x = .number (.ofFinite Json.floatLayout negative m q) := by
      simp only [Json.float, hclass]
    have hread := hback _ (by rw [hfloat]; rfl)
    rw [hfloat]
    refine ⟨Numeral.wellFormed_ofFinite _ negative m q, ?_⟩
    simp only [float, hread]
  · intro depth j x h
    constructor
    · rintro leaf (_ | ⟨_, ⟨⟩⟩)
      unfold float at h
      split at h
      · split at h
        · rename_i hread
          cases h
          exact Numeral.isFinite_of_toFloat? hread
        · cases h
      · cases h
    · have hnesting : (Json.float x).nesting = 0 := by
        unfold Json.float
        split <;> rfl
      omega

theorem items_map (h : ∀ a, d.Reads limit (leaves a) (encode a) a) (hdepth : depth ≤ limit)
    (as : List α) (hleaves : ∀ leaf ∈ as.flatMap leaves, leaf.Valid ∧ leaf.ReadsBack)
    (hnesting : Json.nestingItems (as.map encode) ≤ depth) :
    Json.PlainItems (as.map encode) ∧ items (d depth) (as.map encode) = .ok as := by
  induction as with
  | nil => exact ⟨trivial, rfl⟩
  | cons a _ ih =>
    rw [List.flatMap_cons, List.forall_mem_append] at hleaves
    rw [List.map_cons, Json.nestingItems, Nat.max_le] at hnesting
    obtain ⟨hplain, hread⟩ := h a depth hdepth hleaves.1 hnesting.1
    obtain ⟨hplains, hreads⟩ := ih hleaves.2 hnesting.2
    refine ⟨⟨hplain, hplains⟩, ?_⟩
    simp only [List.map_cons, items, hread, hreads]
    rfl

theorem nestingItems_le {as : List α} (h : ∀ a ∈ as, (encode a).nesting ≤ depth) :
    Json.nestingItems (as.map encode) ≤ depth := by
  induction as with
  | nil => exact Nat.zero_le depth
  | cons a _ ih =>
    rw [List.forall_mem_cons] at h
    exact Nat.max_le.mpr ⟨h.1, ih h.2⟩

/-- A list is read back from its elements. -/
theorem Inverts.list (h : d.Inverts limit encode leaves) :
    d.list.Inverts limit (fun as => .array (as.map encode)) fun as => as.flatMap leaves := by
  constructor
  · intro as depth hdepth hleaves hnesting
    cases depth with
    | zero => cases hnesting
    | succ _ =>
      exact items_map h.reads (by omega) as hleaves (Nat.le_of_succ_le_succ hnesting)
  · refine (gives_list h.gives).mono ?_
    rintro depth as ⟨hpos, has⟩
    have hitems := nestingItems_le fun a ha => (has a ha).2
    refine ⟨?_, by simp only [Json.nesting]; omega⟩
    intro leaf hleaf
    obtain ⟨a, ha, hleaf⟩ := List.mem_flatMap.mp hleaf
    exact (has a ha).1 leaf hleaf

theorem valid_option {value : Option α}
    (h : ∀ a ∈ value, (∀ leaf ∈ leaves a, leaf.Valid) ∧ (encode a).nesting ≤ depth) :
    (∀ leaf ∈ value.toList.flatMap leaves, leaf.Valid) ∧
    (Json.option encode value).nesting ≤ depth := by
  cases value with
  | none => exact ⟨by simp, Nat.zero_le depth⟩
  | some a => simpa [Json.option] using h a rfl

theorem Inverts.nullable (h : d.Inverts limit encode leaves) (hnull : ∀ a, encode a ≠ .null) :
    d.nullable.Inverts limit (Json.option encode) fun value => value.toList.flatMap leaves := by
  constructor
  · intro value depth hdepth hleaves hnesting
    cases value with
    | none => exact ⟨trivial, rfl⟩
    | some a =>
      obtain ⟨hplain, hread⟩ := h.reads a depth hdepth (by simpa using hleaves) hnesting
      refine ⟨hplain, ?_⟩
      have hne := hnull a
      simp only [Json.option]
      unfold Decoder.nullable
      split
      · contradiction
      · rw [hread]
        rfl
  · exact (gives_nullable h.gives).mono fun _ _ => valid_option

theorem Reads.map {leaves : List Leaf} {j : Json} {a : α} (h : d.Reads limit leaves j a)
    (f : α → β) :
    (d.map f).Reads limit leaves j (f a) := by
  intro depth hdepth hleaves hnesting
  obtain ⟨hplain, hread⟩ := h depth hdepth hleaves hnesting
  refine ⟨hplain, ?_⟩
  simp only [Decoder.map, hread]
  rfl

theorem Inverts.map (h : d.Inverts limit encode leaves) {f : α → β} {g : β → α}
    (hfg : ∀ b, f (g b) = b) (hgf : ∀ a, g (f a) = a) :
    (d.map f).Inverts limit (fun b => encode (g b)) fun b => leaves (g b) := by
  constructor
  · intro b
    have hreads := (h.reads (g b)).map f
    rwa [hfg] at hreads
  · refine gives_map (h.gives.mono ?_)
    intro depth a ha
    rwa [hgf]

end Decoder

/-! ### Records -/

namespace Record

/-- The fields of a record are encoded as members with the given names, and read from them. -/
structure Inverts (limit : Nat) (r : Record α) (names : List String)
    (members : α → List (String × Json)) (leaves : α → List Leaf) : Prop where
  keys : ∀ a, ∀ m ∈ members a, m.1 ∈ names
  known : ∀ (depth : Nat) {key : String} (j : Json) (slots : r.Slots), key ∈ names →
    ∃ result, r.put depth key j slots = some result
  unknown : ∀ (depth : Nat) {key : String} (j : Json) (slots : r.Slots), key ∉ names →
    r.put depth key j slots = none
  reads : ∀ a, ∀ depth ≤ limit, (∀ leaf ∈ leaves a, leaf.Valid ∧ leaf.ReadsBack) →
    Json.nestingMembers (members a) ≤ depth → Json.PlainMembers (members a) ∧
      ∃ slots, r.members depth (members a) r.empty = .ok slots ∧ r.finish slots = .ok a
  gives : r.Gives fun depth a =>
    (∀ leaf ∈ leaves a, leaf.Valid) ∧ Json.nestingMembers (members a) ≤ depth

variable {limit : Nat} {d : Decoder α} {encode : α → Json} {leaves : α → List Leaf}

variable {key : String} {depth : Nat} {ms : List (String × Json)} {names : List String}
  {leaves : α → List Leaf}

theorem fill_known (name : String) (d : Decoder α) (depth : Nat) (j : Json) (slot : Option α)
    (h : key ∈ [name]) : ∃ result, fill name d depth key j slot = some result :=
  ⟨_, if_pos (List.mem_singleton.mp h)⟩

theorem fill_unknown (name : String) (d : Decoder α) (depth : Nat) (j : Json) (slot : Option α)
    (h : key ∉ [name]) : fill name d depth key j slot = none :=
  if_neg (mt List.mem_singleton.mpr h)

/-- A field is read back from the member with its name. -/
theorem inverts_field (h : d.Inverts limit encode leaves) (name : String) :
    (field name d).Inverts limit [name] (fun a => [(name, encode a)]) leaves where
  keys := by simp
  known depth _ := fill_known name d depth
  unknown depth _ := fill_unknown name d depth
  reads := by
    intro a depth hdepth hleaves hnesting
    obtain ⟨hplain, hread⟩ := h.reads a depth hdepth hleaves (by simpa using hnesting)
    refine ⟨⟨hplain, trivial⟩, some a, ?_, rfl⟩
    simp only [members, field, fill, if_true, Option.isSome_none, hread]
    rfl
  gives := by simpa using gives_field h.gives name

theorem inverts_optional (h : d.Inverts limit encode leaves) (hnull : ∀ a, encode a ≠ .null)
    (name : String) :
    (optional name d).Inverts limit [name] (fun value => [(name, Json.option encode value)])
      fun value => value.toList.flatMap leaves where
  keys := by simp
  known depth _ := fill_known name d.nullable depth
  unknown depth _ := fill_unknown name d.nullable depth
  reads := by
    intro value depth hdepth hleaves hnesting
    obtain ⟨hplain, hread⟩ :=
      (h.nullable hnull).reads value depth hdepth hleaves (by simpa using hnesting)
    refine ⟨⟨hplain, trivial⟩, some value, ?_, rfl⟩
    simp only [members, optional, fill, if_true, Option.isSome_none, hread]
    rfl
  gives := (gives_optional h.gives name).mono fun _ _ hvalue => by
    simpa using Decoder.valid_option hvalue

variable {r : Record α} {r' : Record β}

theorem members_append (r : Record α) (depth : Nat) (ms ns : List (String × Json))
    (slots : r.Slots) :
    r.members depth (ms ++ ns) slots = r.members depth ms slots >>= r.members depth ns := by
  induction ms generalizing slots with
  | nil => rfl
  | cons m _ ih =>
    simp only [List.cons_append, members]
    split
    · rename_i result _
      cases result with
      | error e => rfl
      | ok slots => exact ih slots
    · split
      · rfl
      · rfl
      · exact ih slots

/-- Members that a record knows are taken in by a larger one as well, whose slots hold those of the
record. -/
theorem members_into (r : Record α) (r' : Record β) (into : r.Slots → r'.Slots)
    (hput : ∀ m ∈ ms, ∀ slots, ∃ result, r.put depth m.1 m.2 slots = some result ∧
      r'.put depth m.1 m.2 (into slots) = some (result.map into)) (slots : r.Slots) :
    r'.members depth ms (into slots) = (r.members depth ms slots).map into := by
  induction ms generalizing slots with
  | nil => rfl
  | cons m _ ih =>
    obtain ⟨hm, hms⟩ := List.forall_mem_cons.mp hput
    obtain ⟨result, hfirst, hsecond⟩ := hm slots
    simp only [members, hfirst, hsecond]
    cases result with
    | error e => rfl
    | ok after => exact ih hms after

/-- Two parts of a record are read back if they have no name in common. -/
theorem Inverts.and {names' : List String} {ms : α → List (String × Json)}
    {ms' : β → List (String × Json)} {leaves' : β → List Leaf} (h : r.Inverts limit names ms leaves)
    (h' : r'.Inverts limit names' ms' leaves')
    (hnames : ∀ name ∈ names', name ∉ names := by decide) :
    (r.and r').Inverts limit (names ++ names') (fun pair => ms pair.1 ++ ms' pair.2)
      fun pair => leaves pair.1 ++ leaves' pair.2 where
  keys := by
    intro pair m hm
    rcases List.mem_append.mp hm with hm | hm
    · exact List.mem_append_left _ (h.keys pair.1 m hm)
    · exact List.mem_append_right _ (h'.keys pair.2 m hm)
  known := by
    intro depth key j slots hkey
    by_cases hfirst : key ∈ names
    · obtain ⟨result, hput⟩ := h.known depth j slots.1 hfirst
      exact ⟨_, by simp only [Record.and, hput]; rfl⟩
    · have hsecond := (List.mem_append.mp hkey).resolve_left hfirst
      obtain ⟨_, hput⟩ := h'.known depth j slots.2 hsecond
      exact ⟨_, by simp only [Record.and, h.unknown depth j slots.1 hfirst, hput]; rfl⟩
  unknown := by
    intro depth key j slots hkey
    rw [List.mem_append, not_or] at hkey
    simp only [Record.and, h.unknown depth j slots.1 hkey.1, h'.unknown depth j slots.2 hkey.2]
    rfl
  reads := by
    intro pair depth hdepth hleaves hnesting
    rw [List.forall_mem_append] at hleaves
    rw [Json.nestingMembers_append, Nat.max_le] at hnesting
    obtain ⟨hplain, slots, hmembers, hfinish⟩ := h.reads pair.1 depth hdepth hleaves.1 hnesting.1
    obtain ⟨hplain', slots', hmembers', hfinish'⟩ :=
      h'.reads pair.2 depth hdepth hleaves.2 hnesting.2
    refine ⟨Json.plainMembers_append.mpr ⟨hplain, hplain'⟩, (slots, slots'), ?_, ?_⟩
    · have hfirst := members_into r (r.and r') (fun s => (s, r'.empty)) (fun m hm slots => by
        obtain ⟨result, hput⟩ := h.known depth m.2 slots (h.keys pair.1 m hm)
        exact ⟨result, hput, by simp only [Record.and, hput]⟩) r.empty
      have hsecond := members_into r' (r.and r') (fun s => (slots, s)) (fun m hm slots' => by
        obtain ⟨result, hput⟩ := h'.known depth m.2 slots' (h'.keys pair.2 m hm)
        have hnone := h.unknown depth m.2 slots (hnames m.1 (h'.keys pair.2 m hm))
        exact ⟨result, hput, by simp only [Record.and, hnone, hput, Option.map_some]⟩) r'.empty
      rw [hmembers] at hfirst
      rw [hmembers'] at hsecond
      rw [members_append]
      show (r.and r').members depth (ms pair.1) (r.empty, r'.empty) >>= _ = _
      rw [hfirst]
      exact hsecond
    · simp only [Record.and, hfinish, hfinish']
      rfl
  gives := by
    refine (gives_and h.gives h'.gives).mono ?_
    rintro depth pair ⟨⟨hleaves, hnesting⟩, hleaves', hnesting'⟩
    rw [List.forall_mem_append, Json.nestingMembers_append]
    exact ⟨⟨hleaves, hleaves'⟩, Nat.max_le.mpr ⟨hnesting, hnesting'⟩⟩

theorem Inverts.map {ms : α → List (String × Json)} (h : r.Inverts limit names ms leaves)
    {f : α → β} {g : β → α} (hfg : ∀ b, f (g b) = b) (hgf : ∀ a, g (f a) = a) :
    (r.map f).Inverts limit names (fun b => ms (g b)) fun b => leaves (g b) where
  keys := fun b => h.keys (g b)
  known := h.known
  unknown := h.unknown
  reads := by
    intro b depth hdepth hleaves hnesting
    obtain ⟨hplain, slots, hmembers, hfinish⟩ := h.reads (g b) depth hdepth hleaves hnesting
    refine ⟨hplain, slots, ?_, ?_⟩
    · have hmap := members_into r (r.map f) id (fun m hm slots => by
        obtain ⟨result, hput⟩ := h.known depth m.2 slots (h.keys (g b) m hm)
        exact ⟨result, hput, by cases result <;> exact hput⟩) r.empty
      rw [hmembers] at hmap
      exact hmap
    · simp only [Record.map, hfinish]
      exact congrArg Except.ok (hfg b)
  gives := by
    refine gives_recordMap (h.gives.mono ?_)
    intro depth a ha
    rwa [hgf]

/-- A record is read back from the object of its members. -/
theorem Inverts.decoder {ms : α → List (String × Json)} (h : r.Inverts limit names ms leaves) :
    r.decoder.Inverts limit (fun a => .object (ms a)) leaves where
  reads := by
    intro a depth hdepth hleaves hnesting
    cases depth with
    | zero => cases hnesting
    | succ depth =>
      obtain ⟨hplain, _, hmembers, hfinish⟩ :=
        h.reads a depth (by omega) hleaves (Nat.le_of_succ_le_succ hnesting)
      refine ⟨hplain, ?_⟩
      simp only [Record.decoder, hmembers]
      exact hfinish
  gives := by
    refine h.gives.decoder.mono ?_
    rintro depth a ⟨hpos, hleaves, hnesting⟩
    exact ⟨hleaves, by simp only [Json.nesting]; omega⟩

end Record

/-! ### Alternatives -/

namespace Decoder

variable {limit : Nat} {encode : α → Json} {leaves : α → List Leaf}

theorem inverts_enumeration (limit : Nat) {values : List α} {name : α → String}
    (hlookup : ∀ a, (values.map fun a => (name a, Alternative.plain a)).lookup (name a) =
      some (.plain a)) :
    (enumeration values name).Inverts limit (fun a => .string (name a)) fun _ => [] := by
  constructor
  · intro a depth _ _ _
    refine ⟨trivial, ?_⟩
    cases depth <;> simp only [enumeration, variant, hlookup]
  · intro depth j a _
    exact ⟨by simp, Nat.zero_le depth⟩

theorem Inverts.payload {d : Decoder β} {encode' : β → Json} {leaves' : β → List Leaf}
    (h : d.Inverts limit encode' leaves') {f : β → α} {name : String}
    (hencode : ∀ b, encode (f b) = .tagged name (encode' b) := by exact fun _ => rfl)
    (hleaves : ∀ b, leaves (f b) = leaves' b := by exact fun _ => rfl) :
    (Alternative.payload (d.map f)).Gives fun depth a =>
      (∀ leaf ∈ leaves a, leaf.Valid) ∧ (encode a).nesting ≤ depth := by
  refine gives_map (h.gives.mono ?_)
  rintro depth b ⟨hvalid, hnesting⟩
  rw [hleaves, hencode, Json.nesting_tagged]
  exact ⟨hvalid, Nat.succ_le_succ hnesting⟩

/-- A value is read back from the tag of its alternative. -/
theorem inverts_variant {alternatives : List (String × Alternative α)}
    (hreads : ∀ a, ∃ name j d, encode a = .tagged name j ∧
      alternatives.lookup name = some (.payload d) ∧ d.Reads limit (leaves a) j a)
    (hgives : ∀ alternative ∈ alternatives, alternative.2.Gives fun depth a =>
      (∀ leaf ∈ leaves a, leaf.Valid) ∧ (encode a).nesting ≤ depth) :
    (variant alternatives).Inverts (limit + 1) encode leaves := by
  refine ⟨?_, gives_variant hgives⟩
  intro a depth hdepth hleaves hnesting
  obtain ⟨_, j, d, hencode, hlookup, hread⟩ := hreads a
  rw [hencode, Json.nesting_tagged] at hnesting
  cases depth with
  | zero => cases hnesting
  | succ depth =>
    obtain ⟨hplain, hread⟩ := hread depth (by omega) hleaves (Nat.le_of_succ_le_succ hnesting)
    rw [hencode, Json.plain_tagged]
    refine ⟨hplain, ?_⟩
    simp only [Json.tagged, variant, hlookup, Alternative.decode, hread]
    rfl

variable {shape : Decoder α → Decoder α}

/-- A shape that holds values of its own kind, when one level inverts what the levels below do.
Every value is a container, so nothing is left to read where no container may nest. -/
theorem inverts_unroll (hpos : ∀ a, 0 < (encode a).nesting)
    (hshape : ∀ {self : Decoder α} {levels : Nat}, levels < limit →
      self.Inverts levels encode leaves →
      (shape self).Inverts (levels + 1) encode leaves) {levels : Nat} (hlevels : levels ≤ limit) :
    (unroll shape levels).Inverts levels encode leaves := by
  induction levels with
  | zero =>
    constructor
    · intro a depth hdepth _ hnesting
      have := hpos a
      omega
    · intro depth j a h
      cases h
  | succ _ ih => exact hshape hlevels (ih (Nat.le_of_succ_le hlevels))

theorem inverts_nested (hpos : ∀ a, 0 < (encode a).nesting)
    (hshape : ∀ {self : Decoder α} {levels : Nat}, levels < maxDepth →
      self.Inverts levels encode leaves → (shape self).Inverts (levels + 1) encode leaves) :
    (nested shape).Inverts maxDepth encode leaves :=
  inverts_unroll hpos hshape (Nat.le_refl maxDepth)

/-! ### Whole texts -/

theorem Inverts.run {d : Decoder α} (h : d.Inverts maxDepth encode leaves) {a : α}
    (hleaves : ∀ leaf ∈ leaves a, leaf.Valid ∧ leaf.ReadsBack)
    (hnesting : (encode a).nesting ≤ maxDepth) : d.run (encode a).compact = .ok a := by
  obtain ⟨hplain, hread⟩ := h.reads a maxDepth (Nat.le_refl _) hleaves hnesting
  rw [run_eq_ok, Json.read_compact hplain]
  exact ⟨hread, rfl⟩

end Decoder

/-! ### Spans -/

/-- The leaves of a location. -/
def Location.leaves (a : Location) : List Leaf :=
  [.word 64 a.offset, .word 32 a.line, .word 32 a.column]

/-- The leaves of a span: itself and those of its ends. -/
def Span.leaves (s : Span) : List Leaf := .span s :: s.start.leaves ++ s.stop.leaves

open Decoder (inverts_string inverts_natBelow)
open Record (inverts_field)

theorem Location.inverts_decoder (limit : Nat) :
    Location.decoder.Inverts limit Location.toJson Location.leaves := by
  have hrecord := (inverts_field (inverts_string limit) "source_name").and
    ((inverts_field (inverts_natBelow limit 64) "offset").and
      ((inverts_field (inverts_natBelow limit 32) "line").and
        (inverts_field (inverts_natBelow limit 32) "column") (by decide)) (by decide)) (by decide)
  exact (hrecord.map (g := fun a : Location => (a.source, a.offset, a.line, a.column))
    (fun _ => rfl) fun _ => rfl).decoder

theorem Span.between_normalized {s : Span} (h : s.Normalized) :
    Span.between s.start s.stop = .ok s := by
  rw [Span.between, if_pos h.1, if_neg (Nat.not_lt.mpr h.2)]

theorem Span.between_eq_ok {a b : Location} {s : Span} (h : Span.between a b = .ok s) :
    s.Normalized ∧ (s = ⟨a, b⟩ ∨ s = ⟨b, a⟩) := by
  unfold Span.between at h
  split at h
  · rename_i hsource
    split at h
    · rename_i hlt
      cases h
      exact ⟨⟨hsource.symm, Nat.le_of_lt hlt⟩, .inr rfl⟩
    · rename_i hle
      cases h
      exact ⟨⟨hsource, Nat.not_lt.mp hle⟩, .inl rfl⟩
  · cases h

theorem Span.inverts_decoder (limit : Nat) :
    Span.decoder.Inverts limit Span.toJson Span.leaves := by
  have hlocation := Location.inverts_decoder limit
  have hrecord := ((inverts_field hlocation "start").and (inverts_field hlocation "end")
    (by decide)).decoder
  constructor
  · intro s depth hdepth hleaves hnesting
    obtain ⟨hself, hends⟩ := List.forall_mem_cons.mp hleaves
    obtain ⟨hplain, hread⟩ := hrecord.reads (s.start, s.stop) depth hdepth hends hnesting
    refine ⟨hplain, Typing.bind_eq_ok.mpr ⟨_, hread, ?_⟩⟩
    simp only [Span.between_normalized hself.1]
    rfl
  · intro depth j s h
    obtain ⟨⟨a, b⟩, hread, h⟩ := Typing.bind_eq_ok.mp h
    obtain ⟨hvalid, hnesting⟩ := hrecord.gives hread
    have hbetween : Span.between a b = .ok s := by
      simp only at h
      cases hcase : Span.between a b with
      | error e =>
        rw [hcase] at h
        cases h
      | ok _ =>
        rw [hcase] at h
        cases h
        rfl
    rw [List.forall_mem_append] at hvalid
    obtain ⟨hnormalized, rfl | rfl⟩ := Span.between_eq_ok hbetween
    · exact ⟨List.forall_mem_cons.mpr ⟨hnormalized, List.forall_mem_append.mpr hvalid⟩, hnesting⟩
    · -- The ends were swapped.
      refine ⟨List.forall_mem_cons.mpr ⟨hnormalized, List.forall_mem_append.mpr hvalid.symm⟩, ?_⟩
      simp only [Span.toJson, Json.nesting, Json.nestingMembers, List.cons_append,
        List.nil_append] at hnesting ⊢
      omega

theorem Span.inverts_record (limit : Nat) :
    Span.record.Inverts limit ["span"] (fun s => [("span", s.toJson)]) Span.leaves :=
  inverts_field (Span.inverts_decoder limit) "span"

end Laye
