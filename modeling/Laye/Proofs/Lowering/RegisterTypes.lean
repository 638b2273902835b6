import Laye.Proofs.IR.Constants
import Laye.Proofs.Lowering.Edits

/-!
# The types of registers while code is built

Lowering gives registers out in order, so their types are a list that grows at its end.
`Builder.TypedBy` says that a list of types fits the code so far and the slots of variables, and
`Lower.Types` that a step leads from code that a list fits to code that a longer one fits. It is
kept by sequencing (`Lower.Types.bind`), and the steps that add code keep it if what they add is
well typed. What is asked of integer constants in the code is left open here. -/

namespace Laye

open IR (Register BlockId Frame)

variable {fits : Int → IR.Ty → Prop} {frame : Frame} {symbols : SymbolTable}
  {types types' : List IR.Ty}

variable (id : BlockId) (ty : IR.Ty) {slot : Register}

/-- The types fit the registers given out so far: the code is well typed with constants that fit,
and the slot of a variable is a pointer to what the variable holds. -/
structure Builder.TypedBy (fits : Int → IR.Ty → Prop) (frame : Frame) (symbols : SymbolTable)
    (types : List IR.Ty) (b : Builder) : Prop where
  length : types.length = b.nextRegister
  blocks : ∀ block ∈ b.blocks, block.Suits fits frame types
  slots : ∀ id slot, b.slotOf? id = some slot →
    types[slot]? = some (.ptr (symbols.symbolAt id).ty.shape)

/-- From code that the types fit, the step leads to code that more types fit, with a result that
they also fit. -/
def Lower.Types {α : Type} (fits : Int → IR.Ty → Prop) (frame : Frame) (symbols : SymbolTable)
    (types : List IR.Ty) (x : Lower α) (Q : List IR.Ty → α → Prop) : Prop :=
  ∀ ⦃b b' : Builder⦄ ⦃a : α⦄, b.TypedBy fits frame symbols types → x b = .ok (a, b') →
    ∃ types', types <+: types' ∧ b'.TypedBy fits frame symbols types' ∧ Q types' a

namespace Builder.TypedBy

variable {b : Builder}

theorem start (fits : Int → IR.Ty → Prop) (frame : Frame) (symbols : SymbolTable) :
    Builder.start.TypedBy fits frame symbols [] := by
  refine ⟨rfl, fun block hblock => ?_, fun id slot hslot => by cases hslot⟩
  rw [List.mem_singleton.mp hblock]
  exact IR.Block.suits_empty _ _

section

variable (h : b.TypedBy fits frame symbols types)
include h

theorem update {f : IR.Block → IR.Block}
    (hf : ∀ block : IR.Block, block.Suits fits frame types → (f block).Suits fits frame types) :
    (b.update id f).TypedBy fits frame symbols types := by
  refine ⟨h.length, fun block hblock => ?_, h.slots⟩
  obtain ⟨i, hi, rfl⟩ := List.getElem_of_mem hblock
  have hlt : i < b.blocks.length := by simpa [Builder.update] using hi
  simp only [Builder.update, List.getElem_modify]
  have hold := h.blocks _ (List.getElem_mem hlt)
  split
  · exact hf _ hold
  · exact hold

theorem next :
    TypedBy fits frame symbols (types ++ [ty]) { b with nextRegister := b.nextRegister + 1 } := by
  have hlonger : types <+: types ++ [ty] := List.prefix_append _ _
  refine ⟨by simp [h.length], fun block hblock => (h.blocks block hblock).mono hlonger, ?_⟩
  intro id slot hslot
  exact IR.getElem?_mono hlonger (h.slots id slot hslot)

theorem withDefinition {i : Register → IR.Instruction}
    {ty : IR.Ty} (hi : (i types.length).Suits fits frame (types ++ [ty])) :
    (b.withDefinition i).TypedBy fits frame symbols (types ++ [ty]) := by
  rw [h.length] at hi
  exact (h.next ty).update _ fun _ hblock => hblock.push hi

theorem withSlot : (b.withSlot ty).TypedBy fits frame symbols (types ++ [.ptr ty]) := by
  have hdest : (types ++ [IR.Ty.ptr ty])[b.nextRegister]? = some (.ptr ty) := by
    rw [← h.length]
    exact List.getElem?_concat_length
  exact (h.next (.ptr ty)).update _ fun _ hblock => hblock.push ⟨hdest, trivial, trivial⟩

theorem withBlock (label : String) : (b.withBlock label).TypedBy fits frame symbols types := by
  refine ⟨h.length, fun block hblock => ?_, h.slots⟩
  rcases List.mem_append.mp hblock with hblock | hblock
  · exact h.blocks block hblock
  · rw [List.mem_singleton.mp hblock]
    exact IR.Block.suits_empty _ _

theorem withVariable {id : SymbolId}
    (hslot : types[slot]? = some (.ptr (symbols.symbolAt id).ty.shape)) :
    (b.withVariable id slot).TypedBy fits frame symbols types := by
  refine ⟨h.length, h.blocks, fun other slot' hother => ?_⟩
  simp only [slotOf?, Builder.withVariable, List.lookup_cons] at hother
  split at hother
  · rename_i heq
    cases hother
    rw [eq_of_beq heq]
    exact hslot
  · exact h.slots other slot' hother

end

end Builder.TypedBy

namespace Lower.Types

variable {α β : Type} {x : Lower α}

variable {Q P : List IR.Ty → α → Prop}

theorem of_run (f : Builder → α × Builder) (hrun : ∀ b, x b = .ok (f b))
    (hf : ∀ b : Builder, b.TypedBy fits frame symbols types →
      (f b).2.TypedBy fits frame symbols types ∧ Q types (f b).1) :
    Types fits frame symbols types x Q := by
  intro b b' a hb h
  rw [hrun b] at h
  obtain ⟨rfl, rfl⟩ : (f b).1 = a ∧ (f b).2 = b' := by simpa [Prod.ext_iff] using h
  exact ⟨types, List.prefix_rfl, hf b hb⟩

theorem pure {a : α} (h : Q types a) : Types fits frame symbols types (Pure.pure a) Q :=
  of_run (fun b => (a, b)) (fun _ => rfl) fun _ hb => ⟨hb, h⟩

theorem refuse (span : Span) (problem : Problem) :
    Types fits frame symbols types (Lower.refuse span problem : Lower α) Q := by
  intro b b' a _ h
  cases h

/-- Registers of the first step keep their types while the second adds its own. -/
theorem bind {Q : List IR.Ty → β → Prop} {f : α → Lower β} (hx : Types fits frame symbols types x P)
    (hf : ∀ types' a, types <+: types' → P types' a → Types fits frame symbols types' (f a) Q) :
    Types fits frame symbols types (x >>= f) Q := by
  intro b b' c hb h
  obtain ⟨a, _, hrun, h⟩ := bind_eq_ok.mp h
  obtain ⟨types1, hlonger, hb1, ha⟩ := hx hb hrun
  obtain ⟨types2, hlonger', hb', hc⟩ := hf types1 a hlonger ha hb1 h
  exact ⟨types2, hlonger.trans hlonger', hb', hc⟩

theorem imp (hx : Types fits frame symbols types x P)
    (h : ∀ types' a, types <+: types' → P types' a → Q types' a) :
    Types fits frame symbols types x Q := by
  intro b b' a hb hrun
  obtain ⟨types', hlonger, hb', ha⟩ := hx hb hrun
  exact ⟨types', hlonger, hb', h types' a hlonger ha⟩

/-! ### Steps that add code -/

theorem define {i : Register → IR.Instruction} {ty : IR.Ty}
    (h : (i types.length).Suits fits frame (types ++ [ty])) :
    Types fits frame symbols types (Lower.define i)
      fun types' v => v.Suits fits frame types' ty := by
  intro b _ v hb hrun
  cases hrun
  refine ⟨types ++ [ty], List.prefix_append _ _, hb.withDefinition h,
    IR.Value.HasType.suits (.register ?_) (by simp)⟩
  rw [← hb.length]
  exact List.getElem?_concat_length

theorem reserve :
    Types fits frame symbols types (Lower.reserve ty) fun types' slot =>
      types'[slot]? = some (.ptr ty) := by
  intro b _ _ hb hrun
  cases hrun
  refine ⟨types ++ [.ptr ty], List.prefix_append _ _, hb.withSlot ty, ?_⟩
  rw [← hb.length]
  exact List.getElem?_concat_length

theorem emit {i : IR.Instruction} (h : i.Suits fits frame types) :
    Types fits frame symbols types (Lower.emit i) fun _ _ => True :=
  of_run _ (emit_run i) fun _ hb => ⟨hb.update _ fun _ hblock => hblock.push h, trivial⟩

theorem storeSlot {value : IR.Value} {ty : IR.Ty} (hslot : types[slot]? = some (.ptr ty))
    (hvalue : value.Suits fits frame types ty) :
    Types fits frame symbols types (Lower.storeSlot slot value) fun _ _ => True :=
  emit (IR.Instruction.suits_store (.register hslot) hvalue)

theorem bindSlot {id : SymbolId}
    (hslot : types[slot]? = some (.ptr (symbols.symbolAt id).ty.shape)) :
    Types fits frame symbols types (Lower.bindSlot id slot) fun _ _ => True :=
  of_run _ (bindSlot_run id slot) fun _ hb => ⟨hb.withVariable hslot, trivial⟩

theorem slotOf? (id : SymbolId) :
    Types fits frame symbols types (Lower.slotOf? id) fun types' slot =>
      ∀ r, slot = some r → types'[r]? = some (.ptr (symbols.symbolAt id).ty.shape) :=
  of_run _ (slotOf?_run id) fun _ hb => ⟨hb, fun r hr => hb.slots id r hr⟩

theorem newBlock (label : String) :
    Types fits frame symbols types (Lower.newBlock label) fun _ _ => True :=
  of_run _ (newBlock_run label) fun _ hb => ⟨hb.withBlock label, trivial⟩

theorem currentBlock : Types fits frame symbols types Lower.currentBlock fun _ _ => True :=
  of_run _ currentBlock_run fun _ hb => ⟨hb, trivial⟩

theorem moveTo : Types fits frame symbols types (Lower.moveTo id) fun _ _ => True :=
  of_run _ (moveTo_run id) fun _ hb => ⟨⟨hb.length, hb.blocks, hb.slots⟩, trivial⟩

theorem isClosed : Types fits frame symbols types (Lower.isClosed id) fun _ _ => True :=
  of_run _ (isClosed_run id) fun _ hb => ⟨hb, trivial⟩

theorem closeBlock {t : IR.Terminator} (h : t.Suits fits frame types) :
    Types fits frame symbols types (Lower.closeBlock id t) fun _ _ => True :=
  of_run (fun b => ((), b.withTerminator id t)) (fun _ => rfl) fun _ hb =>
    ⟨hb.update _ fun _ hblock => hblock.close h, trivial⟩

theorem close {t : IR.Terminator} (h : t.Suits fits frame types) :
    Types fits frame symbols types (Lower.close t) fun _ _ => True :=
  of_run _ (close_run t) fun _ hb => ⟨hb.update _ fun _ hblock => hblock.close h, trivial⟩

theorem fallFrom (target : BlockId) :
    Types fits frame symbols types (Lower.fallFrom id target) fun _ _ => True := by
  refine (isClosed id).bind fun types' closed _ _ => ?_
  cases closed with
  | true => exact pure trivial
  | false => exact closeBlock id ⟨trivial, trivial⟩

theorem fallInto (target : BlockId) :
    Types fits frame symbols types (Lower.fallInto target) fun _ _ => True :=
  currentBlock.bind fun _ id _ _ => fallFrom id target

end Lower.Types

end Laye
