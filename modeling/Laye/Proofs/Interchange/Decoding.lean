import Laye.Interchange.Syntax
import Laye.Proofs.Typing.Conversion
import Laye.Typing.Declarations

/-!
# What decoders give

`Decoder.Gives P d` says that every value that the decoder `d` gives satisfies `P`, whatever it
decodes. What is known may depend on how many containers were allowed to nest. There is a rule for
each form of decoders. The members of an object come in any order, so what is known of the fields of
a record so far is an invariant of its slots (`Record.Keeps`).

A syntax tree has natural numbers where a text has words of a fixed size.
`SyntaxTree.variantsFit_of_parse` says what this means for the values of variants.
-/

namespace Laye

open Typing (bind_eq_ok)

variable {α β : Type}

theorem DecodeError.map_eq_ok {f : α → β} {x : Except DecodeError α} {b : β} :
    x.map f = .ok b ↔ ∃ a, x = .ok a ∧ f a = b := by
  cases x <;> simp [Except.map]

/-- Every value that the decoder gives satisfies `P`, which may depend on how many containers may
nest. -/
def Decoder.Gives (P : Nat → α → Prop) (d : Decoder α) : Prop :=
  ∀ ⦃depth : Nat⦄ ⦃j : Json⦄ ⦃a : α⦄, d depth j = .ok a → P depth a

theorem Decoder.Gives.mono {P Q : Nat → α → Prop} {d : Decoder α} (h : d.Gives P)
    (himp : ∀ depth a, P depth a → Q depth a) : d.Gives Q :=
  fun depth _ a hrun => himp depth a (h hrun)

/-- Every value that the alternative gives satisfies `P`. A payload lies one container deeper. -/
def Alternative.Gives (P : Nat → α → Prop) : Alternative α → Prop
  | .plain a => ∀ depth, P depth a
  | .payload d => d.Gives fun depth a => P (depth + 1) a

theorem Alternative.Gives.decode {P : Nat → α → Prop} {alternative : Alternative α}
    (h : alternative.Gives P) {depth : Nat} {j : Json} {a : α}
    (hrun : alternative.decode depth j = .ok a) : P (depth + 1) a := by
  cases alternative with
  | plain _ =>
    simp only [Alternative.decode] at hrun
    split at hrun
    · cases hrun
      exact h (depth + 1)
    · cases hrun
  | payload d => exact h hrun

/-! ### Records -/

namespace Record

/-- While so many containers may nest, the slots satisfy `S` all the time that members are taken in,
and what they are made into at the end satisfies `P`. So does what is made of the items of an
array. -/
structure Keeps (r : Record α) (depth : Nat) (S : r.Slots → Prop) (P : α → Prop) : Prop where
  empty : S r.empty
  put : ∀ {key : String} {j : Json} {slots slots' : r.Slots}, S slots →
    r.put depth key j slots = some (.ok slots') → S slots'
  finish : ∀ {slots : r.Slots} {a : α}, S slots → r.finish slots = .ok a → P a
  take : ∀ {js rest : List Json} {a : α}, r.take depth js = .ok (a, rest) → P a

/-- Every record that is read satisfies `P`. -/
def Gives (P : Nat → α → Prop) (r : Record α) : Prop := ∀ depth, ∃ S, r.Keeps depth S (P depth)

variable {P : Nat → α → Prop} {d : Decoder α}

theorem Gives.mono {Q : Nat → α → Prop} {r : Record α} (h : r.Gives P)
    (himp : ∀ depth a, P depth a → Q depth a) : r.Gives Q := by
  intro depth
  obtain ⟨S, hS⟩ := h depth
  exact ⟨S, hS.empty, hS.put, fun hslots hrun => himp depth _ (hS.finish hslots hrun),
    fun hrun => himp depth _ (hS.take hrun)⟩

theorem gives_true (r : Record α) : r.Gives fun _ _ => True :=
  fun _ => ⟨fun _ => True, trivial, fun _ _ => trivial, fun _ _ => trivial, fun _ => trivial⟩

theorem fill_eq_ok (hd : d.Gives P) {name key : String} {depth : Nat} {j : Json}
    {slot slot' : Option α}
    (h : fill name d depth key j slot = some (.ok slot')) : ∀ a ∈ slot', P depth a := by
  unfold fill at h
  split at h
  · have h := Option.some.inj h
    split at h
    · cases h
    · obtain ⟨a, ha, rfl⟩ := DecodeError.map_eq_ok.mp h
      rintro _ ⟨⟩
      exact hd ha
  · cases h

theorem next_eq_ok (hd : d.Gives P) {depth : Nat} {js rest : List Json} {a : α}
    (h : next d depth js = .ok (a, rest)) : P depth a := by
  cases js with
  | nil => cases h
  | cons j _ =>
    obtain ⟨_, ha, heq⟩ := DecodeError.map_eq_ok.mp h
    cases heq
    exact hd ha

theorem gives_field (hd : d.Gives P) (name : String) : (field name d).Gives P := by
  intro depth
  refine ⟨fun slot : Option α => ∀ a ∈ slot, P depth a, by simp [field], fun _ => fill_eq_ok hd, ?_,
    next_eq_ok hd⟩
  intro slot a hslot h
  simp only [field] at h
  split at h
  · cases h
    exact hslot a rfl
  · cases h

end Record

namespace Decoder

variable {P : Nat → α → Prop} {Q : Nat → β → Prop} {d : Decoder α}

theorem gives_natBelow (bound : Nat) : (natBelow bound).Gives fun _ n => n < bound := by
  intro depth j a h
  unfold natBelow at h
  split at h
  · split at h
    · split at h
      · rename_i hlt
        cases h
        exact hlt
      · cases h
    · cases h
  · cases h

theorem gives_nullable (hd : d.Gives P) :
    d.nullable.Gives fun depth value => ∀ a ∈ value, P depth a := by
  intro depth j value h
  unfold nullable at h
  split at h
  · cases h
    simp
  · obtain ⟨a, ha, rfl⟩ := DecodeError.map_eq_ok.mp h
    rintro _ ⟨⟩
    exact hd ha

theorem gives_map {f : α → β} (hd : d.Gives fun depth a => Q depth (f a)) : (d.map f).Gives Q := by
  intro depth j b h
  obtain ⟨a, ha, rfl⟩ := DecodeError.map_eq_ok.mp h
  exact hd ha

theorem gives_list (hd : d.Gives P) :
    d.list.Gives fun depth as => 0 < depth ∧ ∀ a ∈ as, P (depth - 1) a := by
  have hitems : ∀ (depth : Nat) (js : List Json) (as : List α), items (d depth) js = .ok as →
      ∀ a ∈ as, P depth a := by
    intro depth js
    induction js with
    | nil =>
      rintro _ ⟨⟩
      simp
    | cons j _ ih =>
      intro as h
      obtain ⟨a, ha, h⟩ := bind_eq_ok.mp h
      obtain ⟨rest, hrest, h⟩ := bind_eq_ok.mp h
      cases h
      exact List.forall_mem_cons.mpr ⟨hd ha, ih rest hrest⟩
  intro depth j as h
  unfold list at h
  split at h
  · exact ⟨Nat.succ_pos _, hitems _ _ as h⟩
  · cases h

theorem gives_variant {alternatives : List (String × Alternative α)}
    (hall : ∀ alternative ∈ alternatives, alternative.2.Gives P) :
    (variant alternatives).Gives P := by
  have hlookup : ∀ {name : String} {alternative : Alternative α},
      alternatives.lookup name = some alternative → alternative.Gives P := by
    intro name alternative h
    obtain ⟨_, _, rfl, -⟩ := List.lookup_eq_some_iff.mp h
    exact hall (name, alternative) (List.mem_append_right _ List.mem_cons_self)
  intro depth j a h
  unfold variant at h
  split at h
  · split at h
    · rename_i _ hname
      cases h
      exact hlookup hname _
    · cases h
  · split at h
    · rename_i _ hname
      obtain ⟨_, ha, h⟩ := bind_eq_ok.mp h
      split at h
      · cases h
        exact (hlookup hname).decode ha
      · cases h
    · cases h
  · cases h

end Decoder

namespace Record

variable {P : Nat → α → Prop} {Q : Nat → β → Prop}

theorem gives_optional {d : Decoder α} (hd : d.Gives P) (name : String) :
    (optional name d).Gives fun depth value => ∀ a ∈ value, P depth a := by
  have hnull := Decoder.gives_nullable hd
  intro depth
  refine ⟨fun slot : Option (Option α) => ∀ value ∈ slot, ∀ a ∈ value, P depth a,
    by simp [optional], fun _ => fill_eq_ok hnull, ?_, next_eq_ok hnull⟩
  intro slot value hslot h
  cases h
  cases slot with
  | none => simp
  | some value => exact hslot value rfl

variable {r : Record α}

theorem gives_and {r' : Record β} (h : r.Gives P) (h' : r'.Gives Q) :
    (r.and r').Gives fun depth pair => P depth pair.1 ∧ Q depth pair.2 := by
  intro depth
  obtain ⟨S, hS⟩ := h depth
  obtain ⟨S', hS'⟩ := h' depth
  refine ⟨fun slots : r.Slots × r'.Slots => S slots.1 ∧ S' slots.2,
    ⟨hS.empty, hS'.empty⟩, ?_, ?_, ?_⟩
  · intro key j slots slots' hslots h
    simp only [Record.and] at h
    split at h
    · rename_i result hput
      obtain ⟨_, rfl, rfl⟩ := DecodeError.map_eq_ok.mp (Option.some.inj h)
      exact ⟨hS.put hslots.1 hput, hslots.2⟩
    · obtain ⟨_, hput, h⟩ := Option.map_eq_some_iff.mp h
      obtain ⟨_, rfl, rfl⟩ := DecodeError.map_eq_ok.mp h
      exact ⟨hslots.1, hS'.put hslots.2 hput⟩
  · intro slots pair hslots h
    obtain ⟨a, ha, h⟩ := bind_eq_ok.mp h
    obtain ⟨b, hb, h⟩ := bind_eq_ok.mp h
    cases h
    exact ⟨hS.finish hslots.1 ha, hS'.finish hslots.2 hb⟩
  · intro js rest pair h
    obtain ⟨⟨a, _⟩, ha, h⟩ := bind_eq_ok.mp h
    obtain ⟨⟨b, _⟩, hb, h⟩ := bind_eq_ok.mp h
    cases h
    exact ⟨hS.take ha, hS'.take hb⟩

theorem gives_recordMap {f : α → β} (h : r.Gives fun depth a => Q depth (f a)) :
    (r.map f).Gives Q := by
  intro depth
  obtain ⟨S, hS⟩ := h depth
  refine ⟨S, hS.empty, hS.put, ?_, ?_⟩
  · intro slots b hslots hrun
    obtain ⟨a, ha, rfl⟩ := DecodeError.map_eq_ok.mp hrun
    exact hS.finish hslots ha
  · intro js rest b hrun
    obtain ⟨⟨a, _⟩, ha, heq⟩ := DecodeError.map_eq_ok.mp hrun
    cases heq
    exact hS.take ha

theorem Keeps.members {depth : Nat} {S : r.Slots → Prop} {P : α → Prop} (h : r.Keeps depth S P)
    {ms : List (String × Json)} {slots slots' : r.Slots} (hslots : S slots)
    (hrun : r.members depth ms slots = .ok slots') : S slots' := by
  induction ms generalizing slots with
  | nil =>
    cases hrun
    exact hslots
  | cons m _ ih =>
    unfold Record.members at hrun
    split at hrun
    · rename_i _ hput
      obtain ⟨_, rfl, hrun⟩ := bind_eq_ok.mp hrun
      exact ih (h.put hslots hput) hrun
    · split at hrun
      · cases hrun
      · cases hrun
      · exact ih hslots hrun

/-- What a record reads inside an object is read one level deeper. -/
theorem Gives.decoder (h : r.Gives P) :
    r.decoder.Gives fun depth a => 0 < depth ∧ P (depth - 1) a := by
  intro depth j a hrun
  unfold Record.decoder at hrun
  split at hrun
  · rename_i depth _
    obtain ⟨S, hS⟩ := h depth
    obtain ⟨_, hslots, hrun⟩ := bind_eq_ok.mp hrun
    exact ⟨Nat.succ_pos depth, hS.finish (hS.members hS.empty hslots) hrun⟩
  · rename_i depth _
    obtain ⟨S, hS⟩ := h depth
    obtain ⟨⟨_, _⟩, htake, hrun⟩ := bind_eq_ok.mp hrun
    simp only at hrun
    split at hrun
    · cases hrun
      exact ⟨Nat.succ_pos depth, hS.take htake⟩
    · cases hrun
  · cases hrun

end Record

theorem Decoder.run_eq_ok {d : Decoder α} {text : String} {a : α} :
    d.run text = .ok a ↔ d maxDepth (Json.read text).1 = .ok a ∧ (Json.read text).2 = true := by
  simp only [Decoder.run, bind_eq_ok]
  constructor
  · rintro ⟨b, hdecode, h⟩
    split at h
    · cases h
      exact ⟨hdecode, by assumption⟩
    · cases h
  · rintro ⟨hdecode, hcomplete⟩
    exact ⟨a, hdecode, if_pos hcomplete⟩

/-! ### Variants -/

/-- The values that are written down for variants are numbers of 64 bits. -/
def TopLevel.VariantsFit : TopLevel → Prop
  | .enum decl => ∀ variant ∈ decl.variants, ∀ value ∈ variant.value,
      value ≤ Declarations.maxVariant
  | _ => True

theorem TopLevel.gives_decoder : TopLevel.decoder.Gives fun _ decl => decl.VariantsFit := by
  have hvariant : EnumVariant.decoder.Gives fun _ variant =>
      ∀ value ∈ variant.value, value ≤ Declarations.maxVariant := by
    have hword : Decoder.word64.Gives fun _ n => n ≤ Declarations.maxVariant := fun _ _ _ h =>
      Nat.le_pred_of_lt (Decoder.gives_natBelow _ h)
    have hrecord := Record.gives_and (Record.gives_true (.field "name" Ident.decoder))
      (Record.gives_optional hword "value")
    exact Decoder.gives_map fun _ _ _ h => (hrecord.decoder h).2.2
  have henum : EnumDecl.decoder.Gives fun _ decl => TopLevel.VariantsFit (.enum decl) := by
    have hrecord := Record.gives_and (Record.gives_true (.field "name" Ident.decoder))
      (Record.gives_and (Record.gives_field (Decoder.gives_list hvariant) "variants")
        (Record.gives_true Span.record))
    exact Decoder.gives_map fun _ _ _ h => (hrecord.decoder h).2.2.1.2
  refine Decoder.gives_variant ?_
  simp only [List.forall_mem_cons, List.not_mem_nil, false_implies, implies_true, and_true]
  exact ⟨Decoder.gives_map fun _ _ _ _ => trivial, Decoder.gives_map fun _ _ _ _ => trivial,
    Decoder.gives_map henum⟩

/-- The variants of a tree that was read have values of 64 bits. -/
theorem SyntaxTree.variantsFit_of_parse {text : String} {tree : SyntaxTree}
    (h : SyntaxTree.parse text = .ok tree) : ∀ decl ∈ tree.decls, decl.VariantsFit := by
  have hrecord := Record.gives_and (Record.gives_true (.field "source_name" .string))
    (Record.gives_field (Decoder.gives_list TopLevel.gives_decoder) "decls")
  have htree : SyntaxTree.decoder.Gives fun _ tree => ∀ decl ∈ tree.decls, decl.VariantsFit :=
    Decoder.gives_map fun _ _ _ h => (hrecord.decoder h).2.2.2
  exact htree (Decoder.run_eq_ok.mp h).1

end Laye
