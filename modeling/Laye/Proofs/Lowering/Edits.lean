import Laye.Lowering.Program
import Laye.Proofs.IR.ControlFlow
import Mathlib.Logic.Relation

/-!
# What lowering does to a builder

Lowering is a sequence of small changes to a `Builder`. This module names the changes
(`Builder.withSlot`, `Builder.withDefinition`, …), states the steps of `Lower` by them, and says
under which conditions lowering makes them: `Edit` has a constructor per change, and
`Builder.Extends` is a sequence of changes that touches only the block it starts in and blocks that
it adds itself.

`Lower.Advances.closed` and `Typed.Stmt.extending_lower` prove that lowering is such a sequence.
What an extension leaves alone (`Builder.Extends.grows`, `Builder.Extends.untouched`) and what it
keeps true (`Builder.Extends.distinct`) then follows from one look at each change.
-/

namespace Laye

namespace Builder

/-! ### The changes -/

variable (b : Builder) (ty : IR.Ty) (i : IR.Register → IR.Instruction) (label : String)
  (id : IR.BlockId) (symbol : SymbolId) (t : IR.Terminator) (slot : IR.Register)

/-- The builder with a stack slot more, in the next register. -/
def withSlot (b : Builder) (ty : IR.Ty) : Builder :=
  { b with nextRegister := b.nextRegister + 1 }.update entry (·.push (.alloca b.nextRegister ty))

/-- The builder with an instruction more that defines the next register. -/
def withDefinition (b : Builder) (i : IR.Register → IR.Instruction) : Builder :=
  { b with nextRegister := b.nextRegister + 1 }.update b.current (·.push (i b.nextRegister))

/-- The builder with an instruction more. -/
def withInstruction (b : Builder) (i : IR.Instruction) : Builder := b.update b.current (·.push i)

/-- The builder with an empty block more. -/
def withBlock (b : Builder) (label : String) : Builder :=
  { b with blocks := b.blocks ++ [.empty b.blocks.length label] }

/-- The builder with a terminator at the end of a block. -/
def withTerminator (b : Builder) (id : IR.BlockId) (t : IR.Terminator) : Builder :=
  b.update id (·.close t)

/-- The builder at another block. -/
def movedTo (b : Builder) (id : IR.BlockId) : Builder := { b with current := id }

/-- The builder with a slot for a variable. -/
def withVariable (b : Builder) (symbol : SymbolId) (slot : IR.Register) : Builder :=
  { b with slots := (symbol, slot) :: b.slots }

/-- The builder in which a block goes on to another, unless the block has its terminator. -/
def fallingFrom (b : Builder) (id target : IR.BlockId) : Builder :=
  if b.isClosed id then b else b.withTerminator id (.jump target)

/-! ### What the changes leave as it is -/

@[simp] theorem withSlot_nextRegister : (b.withSlot ty).nextRegister = b.nextRegister + 1 := rfl

@[simp] theorem withSlot_current : (b.withSlot ty).current = b.current := rfl

@[simp] theorem withSlot_slots : (b.withSlot ty).slots = b.slots := rfl

@[simp] theorem withSlot_length : (b.withSlot ty).blocks.length = b.blocks.length := by
  simp [withSlot, update]

@[simp] theorem withDefinition_nextRegister :
    (b.withDefinition i).nextRegister = b.nextRegister + 1 := rfl

@[simp] theorem withDefinition_current : (b.withDefinition i).current = b.current := rfl

@[simp] theorem withDefinition_slots : (b.withDefinition i).slots = b.slots := rfl

@[simp] theorem withDefinition_length : (b.withDefinition i).blocks.length = b.blocks.length := by
  simp [withDefinition, update]

@[simp] theorem withInstruction_nextRegister (i : IR.Instruction) :
    (b.withInstruction i).nextRegister = b.nextRegister := rfl

@[simp] theorem withInstruction_current (i : IR.Instruction) :
    (b.withInstruction i).current = b.current := rfl

@[simp] theorem withInstruction_slots (i : IR.Instruction) :
    (b.withInstruction i).slots = b.slots := rfl

@[simp] theorem withInstruction_length (i : IR.Instruction) :
    (b.withInstruction i).blocks.length = b.blocks.length := by
  simp [withInstruction, update]

@[simp] theorem withBlock_nextRegister : (b.withBlock label).nextRegister = b.nextRegister := rfl

@[simp] theorem withBlock_current : (b.withBlock label).current = b.current := rfl

@[simp] theorem withBlock_slots : (b.withBlock label).slots = b.slots := rfl

@[simp] theorem withBlock_length : (b.withBlock label).blocks.length = b.blocks.length + 1 := by
  simp [withBlock]

@[simp] theorem withTerminator_nextRegister :
    (b.withTerminator id t).nextRegister = b.nextRegister := rfl

@[simp] theorem withTerminator_current : (b.withTerminator id t).current = b.current := rfl

@[simp] theorem withTerminator_slots : (b.withTerminator id t).slots = b.slots := rfl

@[simp] theorem withTerminator_length :
    (b.withTerminator id t).blocks.length = b.blocks.length := by
  simp [withTerminator, update]

@[simp] theorem movedTo_nextRegister : (b.movedTo id).nextRegister = b.nextRegister := rfl

@[simp] theorem movedTo_current : (b.movedTo id).current = id := rfl

@[simp] theorem movedTo_slots : (b.movedTo id).slots = b.slots := rfl

@[simp] theorem movedTo_blocks : (b.movedTo id).blocks = b.blocks := rfl

@[simp] theorem withVariable_nextRegister :
    (b.withVariable symbol slot).nextRegister = b.nextRegister := rfl

@[simp] theorem withVariable_current : (b.withVariable symbol slot).current = b.current := rfl

@[simp] theorem withVariable_blocks : (b.withVariable symbol slot).blocks = b.blocks := rfl

end Builder

/-! ### The steps of lowering, by the changes they make -/

namespace Lower

variable {α β : Type} {f : α → Lower β} {b : Builder}

/-- Two steps succeed if the first does and the second does from where it ended. -/
theorem bind_eq_ok {x : Lower α} {r : β × Builder} :
    (x >>= f) b = .ok r ↔ ∃ a b', x b = .ok (a, b') ∧ f a b' = .ok r := by
  show Except.bind (x b) (fun p => f p.1 p.2) = Except.ok r ↔ _
  cases x b with
  | error _ => simp [Except.bind]
  | ok p =>
    obtain ⟨a, _⟩ := p
    simp [Except.bind]

theorem bind_eq_error {x : Lower α} {fault : Fault} :
    (x >>= f) b = .error fault ↔
      x b = .error fault ∨ ∃ a b', x b = .ok (a, b') ∧ f a b' = .error fault := by
  show Except.bind (x b) (fun p => f p.1 p.2) = Except.error fault ↔ _
  cases x b with
  | error _ => simp [Except.bind]
  | ok p =>
    obtain ⟨a, _⟩ := p
    simp [Except.bind]

theorem pure_eq_ok {a : α} {r : α × Builder} : (pure a : Lower α) b = .ok r ↔ (a, b) = r := by
  show Except.ok (a, b) = Except.ok r ↔ _
  simp

theorem refuse_ne_ok {span : Span} {problem : Problem} {r : α × Builder} :
    (refuse span problem : Lower α) b ≠ .ok r := by
  simp [refuse]

theorem define_run (i : IR.Register → IR.Instruction) (b : Builder) :
    define i b = .ok (.register b.nextRegister, b.withDefinition i) := rfl

theorem emit_run (i : IR.Instruction) (b : Builder) : emit i b = .ok ((), b.withInstruction i) :=
  rfl

theorem storeSlot_run (slot : IR.Register) (value : IR.Value) (b : Builder) :
    storeSlot slot value b = .ok ((), b.withInstruction (.store (.register slot) value)) := rfl

theorem reserve_run (ty : IR.Ty) (b : Builder) :
    reserve ty b = .ok (b.nextRegister, b.withSlot ty) := rfl

theorem bindSlot_run (symbol : SymbolId) (slot : IR.Register) (b : Builder) :
    bindSlot symbol slot b = .ok ((), b.withVariable symbol slot) := rfl

theorem slotOf?_run (symbol : SymbolId) (b : Builder) :
    slotOf? symbol b = .ok (b.slotOf? symbol, b) := rfl

theorem newBlock_run (label : String) (b : Builder) :
    newBlock label b = .ok (b.blocks.length, b.withBlock label) := rfl

theorem currentBlock_run (b : Builder) : currentBlock b = .ok (b.current, b) := rfl

theorem moveTo_run (id : IR.BlockId) (b : Builder) : moveTo id b = .ok ((), b.movedTo id) := rfl

theorem isClosed_run (id : IR.BlockId) (b : Builder) : isClosed id b = .ok (b.isClosed id, b) := rfl

theorem close_run (t : IR.Terminator) (b : Builder) :
    close t b = .ok ((), b.withTerminator b.current t) := rfl

theorem fallFrom_run (id target : IR.BlockId) (b : Builder) :
    fallFrom id target b = .ok ((), b.fallingFrom id target) := by
  show (if b.isClosed id = true then pure () else closeBlock id (.jump target) : Lower Unit) b = _
  unfold Builder.fallingFrom
  split <;> rfl

theorem fallInto_run (target : IR.BlockId) (b : Builder) :
    fallInto target b = .ok ((), b.fallingFrom b.current target) :=
  fallFrom_run b.current target b

end Lower

/-! ### Open blocks -/

namespace Builder

/-- The block of the id is there and has no terminator. -/
def OpenAt (b : Builder) (id : IR.BlockId) : Prop :=
  ∃ block, b.blocks[id]? = some block ∧ block.terminator = none

/-- Code can be added to the current block. -/
def IsOpen (b : Builder) : Prop := b.OpenAt b.current

variable {b : Builder} {id : IR.BlockId}

/-- A block that is open is there. -/
theorem OpenAt.lt (h : b.OpenAt id) : id < b.blocks.length := by
  obtain ⟨_, hblock, _⟩ := h
  exact (List.getElem?_eq_some_iff.mp hblock).1

theorem OpenAt.isClosed (h : b.OpenAt id) : b.isClosed id = false := by
  obtain ⟨_, hblock, hopen⟩ := h
  simp [Builder.isClosed, hblock, IR.Block.isClosed, hopen]

/-- A block that is there and not closed is open. -/
theorem openAt_of_not_closed (hlt : id < b.blocks.length) (h : b.isClosed id = false) :
    b.OpenAt id := by
  have hblock : b.blocks[id]? = some b.blocks[id] := List.getElem?_eq_getElem hlt
  refine ⟨b.blocks[id], hblock, ?_⟩
  simpa [Builder.isClosed, hblock, IR.Block.isClosed] using h

theorem getElem?_update (b : Builder) (id i : IR.BlockId) (f : IR.Block → IR.Block) :
    (b.update id f).blocks[i]? = if id = i then (b.blocks[i]?).map f else b.blocks[i]? := by
  rw [update, List.getElem?_modify]
  split <;> simp

/-- A block has the property after an update if it does before and the update gives it. -/
theorem exists_update {i : IR.BlockId} {block : IR.Block} {f : IR.Block → IR.Block}
    {P : IR.Block → Prop} (hblock : b.blocks[i]? = some block) (hf : id = i → P (f block))
    (hsame : P block) : ∃ block', (b.update id f).blocks[i]? = some block' ∧ P block' := by
  by_cases hid : id = i
  · exact ⟨f block, by simp [getElem?_update, hid, hblock], hf hid⟩
  · exact ⟨block, by simp [getElem?_update, hid, hblock], hsame⟩

theorem openAt_update {i : IR.BlockId} {f : IR.Block → IR.Block}
    (hf : ∀ block, (f block).terminator = block.terminator) (h : b.OpenAt i) :
    (b.update id f).OpenAt i := by
  obtain ⟨block, hblock, hopen⟩ := h
  exact exists_update hblock (fun _ => (hf block).trans hopen) hopen

theorem OpenAt.withSlot (h : b.OpenAt id) (ty : IR.Ty) : (b.withSlot ty).OpenAt id :=
  openAt_update (fun _ => rfl) (b := { b with nextRegister := b.nextRegister + 1 }) h

theorem OpenAt.withDefinition (h : b.OpenAt id) (i : IR.Register → IR.Instruction) :
    (b.withDefinition i).OpenAt id :=
  openAt_update (fun _ => rfl) (b := { b with nextRegister := b.nextRegister + 1 }) h

theorem OpenAt.withInstruction (h : b.OpenAt id) (i : IR.Instruction) :
    (b.withInstruction i).OpenAt id :=
  openAt_update (fun _ => rfl) h

theorem OpenAt.withBlock (h : b.OpenAt id) (label : String) : (b.withBlock label).OpenAt id := by
  obtain ⟨block, hblock, hopen⟩ := h
  have hlt : id < b.blocks.length := (List.getElem?_eq_some_iff.mp hblock).1
  exact ⟨block, by simp [Builder.withBlock, List.getElem?_append_left hlt, hblock], hopen⟩

theorem openAt_withBlock (b : Builder) (label : String) :
    (b.withBlock label).OpenAt b.blocks.length :=
  ⟨.empty b.blocks.length label, by simp [Builder.withBlock], rfl⟩

theorem OpenAt.withTerminator {closed : IR.BlockId} (h : b.OpenAt id) (hne : closed ≠ id)
    (t : IR.Terminator) : (b.withTerminator closed t).OpenAt id := by
  obtain ⟨_, hblock, hopen⟩ := h
  exact exists_update hblock (fun hid => absurd hid hne) hopen

theorem not_openAt_withTerminator (b : Builder) (id : IR.BlockId) (t : IR.Terminator) :
    ¬ (b.withTerminator id t).OpenAt id := by
  rintro ⟨block, hblock, hnone⟩
  rw [withTerminator, getElem?_update, if_pos rfl] at hblock
  obtain ⟨_, -, rfl⟩ := Option.map_eq_some_iff.mp hblock
  simp [IR.Block.close] at hnone

end Builder

/-! ### Edits -/

/-- The slot is reserved in the entry block. -/
def Builder.Reserves (b : Builder) (slot : IR.Register) : Prop :=
  ∃ block ty, b.blocks[Builder.entry]? = some block ∧ .alloca slot ty ∈ block.instructions

/-- A change that lowering may make while it works on the blocks in `own`. Slots are reserved in the
entry block at any time. All other code goes to the end of an open block, and only open blocks
get a terminator, which goes to blocks that are there and not back to the entry. -/
inductive Edit (own : IR.BlockId → Prop) : Builder → Builder → Prop where
  | slot (b : Builder) (ty : IR.Ty) : Edit own b (b.withSlot ty)
  | definition (b : Builder) (i : IR.Register → IR.Instruction) (howns : own b.current)
      (hopen : b.IsOpen) (hdest : ∀ r, (i r).dest? = some r)
      (hcode : ∀ r, (i r).isAlloca = false) : Edit own b (b.withDefinition i)
  | instruction (b : Builder) (i : IR.Instruction) (howns : own b.current) (hopen : b.IsOpen)
      (hdest : i.dest? = none) : Edit own b (b.withInstruction i)
  | block (b : Builder) (label : String) : Edit own b (b.withBlock label)
  | terminator (b : Builder) (id : IR.BlockId) (t : IR.Terminator) (howns : own id)
      (hopen : b.OpenAt id)
      (htargets : ∀ target ∈ t.targets, target < b.blocks.length ∧ target ≠ Builder.entry) :
      Edit own b (b.withTerminator id t)
  | move (b : Builder) (id : IR.BlockId) (howns : own id) (hlt : id < b.blocks.length) :
      Edit own b (b.movedTo id)
  | bound (b : Builder) (symbol : SymbolId) (slot : IR.Register) (hslot : b.Reserves slot) :
      Edit own b (b.withVariable symbol slot)

namespace Edit

variable {own own' : IR.BlockId → Prop} {b b' : Builder}

theorem mono (hown : ∀ id, own id → own' id) (h : Edit own b b') : Edit own' b b' := by
  cases h with
  | slot ty => exact .slot b ty
  | definition i howns hopen hdest hcode => exact .definition b i (hown _ howns) hopen hdest hcode
  | instruction i howns hopen hdest => exact .instruction b i (hown _ howns) hopen hdest
  | block label => exact .block b label
  | terminator id t howns hopen htargets => exact .terminator b id t (hown _ howns) hopen htargets
  | move id howns hlt => exact .move b id (hown _ howns) hlt
  | bound symbol slot hslot => exact .bound b symbol slot hslot

theorem length_le (h : Edit own b b') : b.blocks.length ≤ b'.blocks.length := by
  cases h <;> simp

theorem nextRegister_le (h : Edit own b b') : b.nextRegister ≤ b'.nextRegister := by
  cases h <;> simp

theorem owns_current (h : Edit own b b') (hcurrent : own b.current) : own b'.current := by
  cases h with
  | move _ howns _ => exact howns
  | _ => exact hcurrent

theorem current_lt (h : Edit own b b') (hcurrent : b.current < b.blocks.length) :
    b'.current < b'.blocks.length := by
  cases h with
  | move _ _ hlt => exact hlt
  | block _ => simpa using Nat.lt_succ_of_lt hcurrent
  | _ => simpa using hcurrent

end Edit

namespace Builder

/-- The blocks that code from here on may touch: the current one and those yet to come. -/
def Own (b : Builder) (id : IR.BlockId) : Prop := id = b.current ∨ b.blocks.length ≤ id

/-- `b'` comes from `b` by changes to the current block and to new blocks. -/
def Extends (b b' : Builder) : Prop := Relation.ReflTransGen (Edit b.Own) b b'

namespace Extends

variable {b b' b'' : Builder}

theorem refl (b : Builder) : b.Extends b := Relation.ReflTransGen.refl

section

variable (h : b.Extends b')
include h

theorem length_le : b.blocks.length ≤ b'.blocks.length := by
  induction h with
  | refl => exact Nat.le_refl _
  | tail _ hlast ih => exact Nat.le_trans ih hlast.length_le

theorem nextRegister_le : b.nextRegister ≤ b'.nextRegister := by
  induction h with
  | refl => exact Nat.le_refl _
  | tail _ hlast ih => exact Nat.le_trans ih hlast.nextRegister_le

theorem owns_current : b.Own b'.current := by
  induction h with
  | refl => exact .inl rfl
  | tail _ hlast ih => exact hlast.owns_current ih

theorem current_lt (hcurrent : b.current < b.blocks.length) : b'.current < b'.blocks.length := by
  induction h with
  | refl => exact hcurrent
  | tail _ hlast ih => exact hlast.current_lt ih

theorem own_mono (id : IR.BlockId) (hid : b'.Own id) : b.Own id := by
  rcases hid with rfl | hid
  · exact h.owns_current
  · exact .inr (Nat.le_trans h.length_le hid)

theorem trans (h' : b'.Extends b'') : b.Extends b'' :=
  Relation.ReflTransGen.trans h
    (Relation.ReflTransGen.mono (fun _ _ => Edit.mono h.own_mono) _ _ h')

end

end Extends

end Builder

/-! ### How blocks grow -/

namespace IR.Block

/-- How a block may change. New code comes after the old and defines registers from `next` on. A
block that has its terminator, or is not `free`, keeps its end and only gets stack slots. -/
structure Grows (next : Register) (free : Prop) (old new : Block) : Prop where
  id_eq : new.id = old.id
  label_eq : new.label = old.label
  code : ∃ extra, new.instructions = old.instructions ++ extra ∧
    (∀ r ∈ Instruction.dests extra, next ≤ r) ∧
    (old.terminator ≠ none ∨ ¬ free → ∀ i ∈ extra, i.isAlloca = true)
  terminator : old.terminator ≠ none ∨ ¬ free → new.terminator = old.terminator

namespace Grows

variable {next next' : Register} {free : Prop} {old mid new : Block}

theorem refl (next : Register) (free : Prop) (block : Block) : block.Grows next free block :=
  ⟨rfl, rfl, ⟨[], by simp⟩, fun _ => rfl⟩

theorem trans (h : old.Grows next free mid) (h' : mid.Grows next' free new) (hle : next ≤ next') :
    old.Grows next free new := by
  obtain ⟨extra, hcode, hdests, hslots⟩ := h.code
  obtain ⟨extra', hcode', hdests', hslots'⟩ := h'.code
  -- A block that is settled stays so.
  have hsettled : old.terminator ≠ none ∨ ¬ free → mid.terminator ≠ none ∨ ¬ free := by
    intro hs
    rw [h.terminator hs]
    exact hs
  refine ⟨h'.id_eq.trans h.id_eq, h'.label_eq.trans h.label_eq, ⟨extra ++ extra', ?_, ?_, ?_⟩, ?_⟩
  · rw [hcode', hcode, List.append_assoc]
  · intro r hr
    rw [Instruction.dests_append, List.mem_append] at hr
    rcases hr with hr | hr
    · exact hdests r hr
    · exact Nat.le_trans hle (hdests' r hr)
  · intro hs i hi
    rcases List.mem_append.mp hi with hi | hi
    · exact hslots hs i hi
    · exact hslots' (hsettled hs) i hi
  · intro hs
    rw [h'.terminator (hsettled hs), h.terminator hs]

theorem weaken {free' : Prop} (h : old.Grows next free new) (hfree : free → free') :
    old.Grows next free' new := by
  obtain ⟨extra, hcode, hdests, hslots⟩ := h.code
  have hsettled : old.terminator ≠ none ∨ ¬ free' → old.terminator ≠ none ∨ ¬ free :=
    Or.imp_right (mt hfree)
  exact ⟨h.id_eq, h.label_eq, ⟨extra, hcode, hdests, fun hs => hslots (hsettled hs)⟩,
    fun hs => h.terminator (hsettled hs)⟩

theorem push {i : Instruction} (hdest : ∀ r, i.dest? = some r → next ≤ r)
    (hslot : old.terminator ≠ none ∨ ¬ free → i.isAlloca = true) :
    old.Grows next free (old.push i) := by
  refine ⟨rfl, rfl, ⟨[i], rfl, ?_, ?_⟩, fun _ => rfl⟩
  · intro r hr
    obtain ⟨j, hj, hdest'⟩ := Instruction.mem_dests.mp hr
    rw [List.mem_singleton.mp hj] at hdest'
    exact hdest r hdest'
  · intro hs j hj
    rw [List.mem_singleton.mp hj]
    exact hslot hs

theorem close {t : Terminator} (hopen : old.terminator = none) (hfree : free) :
    old.Grows next free (old.close t) :=
  ⟨rfl, rfl, ⟨[], by simp [Block.close]⟩, fun hs => (hs.elim (· hopen) (· hfree)).elim⟩

end Grows

end IR.Block

variable {own : IR.BlockId → Prop} {b b' : Builder}

/-- A block is still there after an edit and has only grown. -/
theorem Edit.grows (h : Edit own b b') {id : IR.BlockId} {block : IR.Block}
    (hblock : b.blocks[id]? = some block) :
    ∃ block', b'.blocks[id]? = some block' ∧ block.Grows b.nextRegister (own id) block' := by
  have hsame : block.Grows b.nextRegister (own id) block := .refl _ _ _
  have hnone : ∀ {other : IR.BlockId}, b.OpenAt other → other = id → block.terminator = none := by
    rintro _ ⟨_, hblock', hopen⟩ rfl
    rw [hblock, Option.some.injEq] at hblock'
    rw [hblock', hopen]
  cases h with
  | slot ty =>
    refine Builder.exists_update hblock (fun _ => .push ?_ fun _ => rfl) hsame
    simp [IR.Instruction.dest?]
  | definition i howns hopen hdest _ | instruction i howns hopen hdest =>
    refine Builder.exists_update hblock (fun hid => .push (by simp [hdest]) fun hs => ?_) hsame
    exact (hs.elim (· (hnone hopen hid)) (· (hid ▸ howns))).elim
  | block _ =>
    have hlt : id < b.blocks.length := (List.getElem?_eq_some_iff.mp hblock).1
    exact ⟨block, by simp [Builder.withBlock, List.getElem?_append_left hlt, hblock], hsame⟩
  | terminator closed t howns hopen _ =>
    exact Builder.exists_update hblock (fun hid => .close (hnone hopen hid) (hid ▸ howns)) hsame
  | move _ _ _ | bound _ _ _ => exact ⟨block, hblock, hsame⟩

/-- Slots stay reserved. -/
theorem Edit.reserves (h : Edit own b b') {slot : IR.Register} (hslot : b.Reserves slot) :
    b'.Reserves slot := by
  obtain ⟨_, ty, hblock, hmem⟩ := hslot
  obtain ⟨block', hblock', hgrows⟩ := h.grows hblock
  obtain ⟨_, hcode, -⟩ := hgrows.code
  exact ⟨block', ty, hblock', by rw [hcode]; exact List.mem_append_left _ hmem⟩

theorem Edit.mem_slots_or_reserves (h : Edit own b b') {entry : SymbolId × IR.Register}
    (hmem : entry ∈ b'.slots) : entry ∈ b.slots ∨ b'.Reserves entry.2 := by
  cases h with
  | bound _ _ hslot =>
    rcases List.mem_cons.mp hmem with rfl | hmem
    · exact .inr hslot
    · exact .inl hmem
  | _ => exact .inl hmem

/-- Blocks that an edit does not own stay as they are, apart from the entry. -/
theorem Edit.untouched (h : Edit own b b') {id : IR.BlockId} (hlt : id < b.blocks.length)
    (hown : ¬ own id) (hne : id ≠ Builder.entry) : b'.blocks[id]? = b.blocks[id]? := by
  have hother : ∀ {other : IR.BlockId} (f : IR.Block → IR.Block), own other →
      (b.update other f).blocks[id]? = b.blocks[id]? := by
    intro other f hother
    have hdiff : other ≠ id := by
      rintro rfl
      exact hown hother
    rw [Builder.getElem?_update, if_neg hdiff]
  cases h with
  | slot _ => rw [Builder.withSlot, Builder.getElem?_update, if_neg hne.symm]
  | definition i howns _ _ _ | instruction i howns _ _ | terminator _ t howns _ _ =>
    exact hother _ howns
  | block _ => exact List.getElem?_append_left hlt
  | move _ _ _ | bound _ _ _ => rfl

namespace Builder.Extends

variable {b b' : Builder}

variable {id : IR.BlockId}

section

variable (h : b.Extends b')
include h

/-- An extension makes each block grow, where the current block is free. -/
theorem grows {block : IR.Block} (hblock : b.blocks[id]? = some block) :
    ∃ block', b'.blocks[id]? = some block' ∧
      block.Grows b.nextRegister (id = b.current) block' := by
  have hlt : id < b.blocks.length := (List.getElem?_eq_some_iff.mp hblock).1
  have key : ∃ block', b'.blocks[id]? = some block' ∧
      block.Grows b.nextRegister (b.Own id) block' := by
    induction h with
    | refl => exact ⟨block, hblock, .refl _ _ _⟩
    | tail hinit hlast ih =>
      obtain ⟨_, hmid, hgrows⟩ := ih
      obtain ⟨block', hblock', hgrows'⟩ := hlast.grows hmid
      exact ⟨block', hblock', hgrows.trans hgrows' (nextRegister_le hinit)⟩
  obtain ⟨block', hblock', hgrows⟩ := key
  exact ⟨block', hblock', hgrows.weaken fun hown => hown.resolve_right (Nat.not_le_of_lt hlt)⟩

/-- An open block other than the current one stays open. -/
theorem openAt (hopen : b.OpenAt id) (hne : id ≠ b.current) : b'.OpenAt id := by
  obtain ⟨_, hblock, hnone⟩ := hopen
  obtain ⟨block', hblock', hgrows⟩ := h.grows hblock
  exact ⟨block', hblock', by rw [hgrows.terminator (.inr hne), hnone]⟩

theorem openAt_of (hlt : id < b.blocks.length) (hopen : b'.OpenAt id) : b.OpenAt id := by
  obtain ⟨_, hblock', hnone⟩ := hopen
  have hblock : b.blocks[id]? = some b.blocks[id] := List.getElem?_eq_getElem hlt
  refine ⟨b.blocks[id], hblock, ?_⟩
  obtain ⟨_, hgrown, hgrows⟩ := h.grows hblock
  rw [hblock', Option.some.injEq] at hgrown
  subst hgrown
  by_contra hsome
  exact hsome ((hgrows.terminator (.inl hsome)).symm.trans hnone)

theorem reserves {slot : IR.Register} (hslot : b.Reserves slot) : b'.Reserves slot := by
  induction h with
  | refl => exact hslot
  | tail _ hlast ih => exact hlast.reserves ih

theorem mem_slots_or_reserves {entry : SymbolId × IR.Register}
    (hmem : entry ∈ b'.slots) : entry ∈ b.slots ∨ b'.Reserves entry.2 := by
  induction h with
  | refl => exact .inl hmem
  | tail _ hlast ih =>
    rcases hlast.mem_slots_or_reserves hmem with hmem | hslot
    · exact (ih hmem).imp_right hlast.reserves
    · exact .inr hslot

theorem untouched (hlt : id < b.blocks.length) (hcurrent : id ≠ b.current)
    (hne : id ≠ entry) : b'.blocks[id]? = b.blocks[id]? := by
  have hown : ¬ b.Own id := fun hown => hown.elim hcurrent (Nat.not_le_of_lt hlt)
  induction h with
  | refl => rfl
  | tail hinit hlast ih =>
    rw [hlast.untouched (Nat.lt_of_lt_of_le hlt (length_le hinit)) hown hne, ih]

end

end Builder.Extends

end Laye
