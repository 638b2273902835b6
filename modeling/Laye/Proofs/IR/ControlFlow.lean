import Laye.IR.Basic
import Mathlib.Data.List.Basic

/-!
# Control flow and single assignment

Which registers an instruction reads and which one it defines, where a block can go next, and the
paths of a function from its entry.

`Function.SingleAssignment` says what the code of a function promises about its registers: no
register is defined twice, and on every path from the entry a register is defined before it is read.
`Function.singleAssignment_of_availability` reduces the second half to a check of one block and one
edge at a time. It takes, for each block, the registers that are known to be defined when the block
starts (`Availability`), and asks of each block that its code reads only those and what it defined
itself (`Availability.Supports`). -/

namespace Laye.IR

/-- The register that a value is read from, if it is one. -/
def Value.register? : Value → Option Register
  | .register r => some r
  | _ => none

namespace Instruction

/-- The register that an instruction defines. -/
def dest? : Instruction → Option Register
  | .alloca dest _ | .load dest _ _ | .binary dest _ _ _ _ | .unary dest _ _ | .cast dest _ _ _
  | .materialize dest _ _ | .sliceData dest _ | .element dest _ _ _ | .field dest _ _ _ =>
    some dest
  | .call dest _ _ => dest
  | .store _ _ => none

/-- The values that an instruction reads. -/
def operands : Instruction → List Value
  | .alloca _ _ => []
  | .load _ ptr _ => [ptr]
  | .store ptr value => [ptr, value]
  | .binary _ _ left right _ => [left, right]
  | .unary _ _ value | .cast _ value _ _ | .materialize _ value _ | .sliceData _ value => [value]
  | .call _ _ args => args
  | .element _ ptr index _ => [ptr, index]
  | .field _ ptr _ _ => [ptr]

/-- The registers that an instruction reads. -/
def uses (i : Instruction) : List Register := i.operands.filterMap Value.register?

theorem mem_uses_store {ptr value : Value} {r : Register} :
    r ∈ (store ptr value).uses ↔ ptr.register? = some r ∨ value.register? = some r := by
  simp [uses, operands]

/-- Whether an instruction reserves a stack slot. -/
def isAlloca : Instruction → Bool
  | .alloca _ _ => true
  | _ => false

/-- The registers that instructions define, in order. -/
def dests (is : List Instruction) : List Register := is.filterMap dest?

@[simp]
theorem dests_nil : dests [] = [] := rfl

@[simp]
theorem dests_append (is js : List Instruction) : dests (is ++ js) = dests is ++ dests js :=
  List.filterMap_append

theorem mem_dests {is : List Instruction} {r : Register} :
    r ∈ dests is ↔ ∃ i ∈ is, i.dest? = some r :=
  List.mem_filterMap

end Instruction

namespace Terminator

/-- The values that a terminator reads. -/
def operands : Terminator → List Value
  | .ret (some value) => [value]
  | .branch condition _ _ => [condition]
  | .ret none | .jump _ | .unreachable => []

/-- The registers that a terminator reads. -/
def uses (t : Terminator) : List Register := t.operands.filterMap Value.register?

/-- The blocks that a terminator can go to. -/
def targets : Terminator → List BlockId
  | .jump target => [target]
  | .branch _ thenTarget elseTarget => [thenTarget, elseTarget]
  | .ret _ | .unreachable => []

end Terminator

/-- The blocks that control can go to from the end of a block. -/
def Block.successors (b : Block) : List BlockId :=
  match b.terminator with
  | some t => t.targets
  | none => []

namespace Function

/-- The instructions of a block. -/
def codeAt (f : Function) (id : BlockId) : List Instruction :=
  match f.blocks[id]? with
  | some block => block.instructions
  | none => []

/-- The instructions of blocks that run one after another. -/
def codeAlong (f : Function) (ids : List BlockId) : List Instruction := ids.flatMap f.codeAt

/-- `f.Path before id` says that control can start at the entry, run through the blocks `before`,
one after another, and then be at the start of block `id`. -/
inductive Path (f : Function) : List BlockId → BlockId → Prop where
  | entry : Path f [] f.entry
  | edge {before : List BlockId} {id next : BlockId} {block : Block} (path : Path f before id)
      (here : f.blocks[id]? = some block) (goes : next ∈ block.successors) :
      Path f (before ++ [id]) next

/-- The registers of a function are assigned once, and before they are read. -/
structure SingleAssignment (f : Function) : Prop where
  /-- No register is defined by two instructions. -/
  definedOnce : (Instruction.dests (f.blocks.flatMap Block.instructions)).Nodup
  /-- On every path from the entry, an instruction reads only registers that were defined earlier
  on that path. -/
  instructions {before : List BlockId} {id : BlockId} {block : Block} {done rest : List Instruction}
      {i : Instruction} (path : f.Path before id) (here : f.blocks[id]? = some block)
      (split : block.instructions = done ++ i :: rest) {r : Register} (use : r ∈ i.uses) :
      r ∈ Instruction.dests (f.codeAlong before ++ done)
  /-- The same for terminators. -/
  terminators {before : List BlockId} {id : BlockId} {block : Block} {t : Terminator}
      (path : f.Path before id) (here : f.blocks[id]? = some block)
      (ends : block.terminator = some t) {r : Register} (use : r ∈ t.uses) :
      r ∈ Instruction.dests (f.codeAlong before ++ block.instructions)

end Function

/-! ### Availability -/

/-- For each block, registers that are defined whenever the block starts. -/
abbrev Availability : Type := BlockId → Register → Prop

namespace Availability

/-- The code of a block reads only what is available at its start and what it defined itself, and
at its end everything is defined that is available in the blocks it goes to. -/
structure Supports (known : Availability) (id : BlockId) (block : Block) : Prop where
  instructions : ∀ {done rest : List Instruction} {i : Instruction},
    block.instructions = done ++ i :: rest →
    ∀ r ∈ i.uses, known id r ∨ r ∈ Instruction.dests done
  terminator : ∀ t, block.terminator = some t →
    ∀ r ∈ t.uses, known id r ∨ r ∈ Instruction.dests block.instructions
  successors : ∀ next ∈ block.successors,
    ∀ r, known next r → known id r ∨ r ∈ Instruction.dests block.instructions

/-- What is available at the start of a block is defined on every path to it, if nothing is
available at the entry and every block does its part. -/
theorem defined_along {known : Availability} {f : Function}
    (hentry : ∀ r, ¬ known f.entry r)
    (hblocks : ∀ id block, f.blocks[id]? = some block → known.Supports id block)
    {before : List BlockId} {id : BlockId} (path : f.Path before id) {r : Register}
    (hr : known id r) : r ∈ Instruction.dests (f.codeAlong before) := by
  induction path with
  | entry => exact absurd hr (hentry r)
  | @edge before id next block _ here goes ih =>
    have hcode : f.codeAlong (before ++ [id]) = f.codeAlong before ++ block.instructions := by
      simp [Function.codeAlong, Function.codeAt, here]
    rw [hcode, Instruction.dests_append, List.mem_append]
    rcases (hblocks id block here).successors next goes r hr with h | h
    · exact .inl (ih h)
    · exact .inr h

end Availability

/-- A function assigns its registers once, before they are read, if no register is defined twice
and some availability supports every block. -/
theorem Function.singleAssignment_of_availability {f : Function} (known : Availability)
    (honce : (Instruction.dests (f.blocks.flatMap Block.instructions)).Nodup)
    (hentry : ∀ r, ¬ known f.entry r)
    (hblocks : ∀ id block, f.blocks[id]? = some block → known.Supports id block) :
    f.SingleAssignment where
  definedOnce := honce
  instructions path here split r use := by
    rw [Instruction.dests_append, List.mem_append]
    rcases (hblocks _ _ here).instructions split r use with h | h
    · exact .inl (Availability.defined_along hentry hblocks path h)
    · exact .inr h
  terminators path here ends r use := by
    rw [Instruction.dests_append, List.mem_append]
    rcases (hblocks _ _ here).terminator _ ends r use with h | h
    · exact .inl (Availability.defined_along hentry hblocks path h)
    · exact .inr h

end Laye.IR
