import Laye.IR.Basic
import Laye.Problem
import Laye.Symbol

/-!
# Building the code of a function

A `Builder` holds the blocks of a function under construction. Code is added at the end of the
current block; stack slots are reserved in the entry block, wherever the code that needs them
stands. `Lower` threads a builder through the steps of lowering and stops at the first fault.
-/

namespace Laye

/-- A function under construction. -/
structure Builder where
  blocks : List IR.Block
  /-- The block that code is added to. -/
  current : IR.BlockId
  nextRegister : IR.Register
  /-- The stack slots of variables. The latest slot of a variable comes first. -/
  slots : List (SymbolId × IR.Register)
deriving Inhabited

namespace Builder

/-- The block in which slots are reserved. -/
def entry : IR.BlockId := 0

/-- A builder with an empty entry block. -/
def start : Builder := ⟨[.empty entry "entry"], entry, 0, []⟩

/-- Changes a block. -/
def update (b : Builder) (id : IR.BlockId) (f : IR.Block → IR.Block) : Builder :=
  { b with blocks := b.blocks.modify id f }

/-- Whether a block has its terminator. -/
def isClosed (b : Builder) (id : IR.BlockId) : Bool := (b.blocks[id]?).any IR.Block.isClosed

/-- The slot of a variable. -/
def slotOf? (b : Builder) (symbol : SymbolId) : Option IR.Register := b.slots.lookup symbol

end Builder

/-- A step of lowering. -/
abbrev Lower (α : Type) : Type := StateT Builder (Except Fault) α

namespace Lower

/-- Stops at a fault. -/
def refuse {α : Type} (span : Span) (problem : Problem) : Lower α := fun _ =>
  .error ⟨span, problem⟩

/-- A register that was not used before. -/
def freshRegister : Lower IR.Register := fun b =>
  .ok (b.nextRegister, { b with nextRegister := b.nextRegister + 1 })

/-- Adds an instruction to the current block. -/
def emit (i : IR.Instruction) : Lower Unit := fun b => .ok ((), b.update b.current (·.push i))

/-- Adds an instruction that gives a fresh register its value. -/
def define (i : IR.Register → IR.Instruction) : Lower IR.Value := do
  let dest ← freshRegister
  emit (i dest)
  pure (.register dest)

/-- Reserves a stack slot. -/
def reserve (ty : IR.Ty) : Lower IR.Register := do
  let dest ← freshRegister
  fun b => .ok (dest, b.update Builder.entry (·.push (.alloca dest ty)))

/-- Stores a value into a slot. -/
def storeSlot (slot : IR.Register) (value : IR.Value) : Lower Unit :=
  emit (.store (.register slot) value)

/-- Makes a slot that of a variable. -/
def bindSlot (symbol : SymbolId) (slot : IR.Register) : Lower Unit := fun b =>
  .ok ((), { b with slots := (symbol, slot) :: b.slots })

/-- The slot of a variable. -/
def slotOf? (symbol : SymbolId) : Lower (Option IR.Register) := fun b =>
  .ok (b.slotOf? symbol, b)

/-- Adds an empty block. -/
def newBlock (label : String) : Lower IR.BlockId := fun b =>
  .ok (b.blocks.length, { b with blocks := b.blocks ++ [.empty b.blocks.length label] })

/-- The block that code is added to. -/
def currentBlock : Lower IR.BlockId := fun b => .ok (b.current, b)

/-- Adds code to another block from here on. -/
def moveTo (id : IR.BlockId) : Lower Unit := fun b => .ok ((), { b with current := id })

/-- Whether a block has its terminator. -/
def isClosed (id : IR.BlockId) : Lower Bool := fun b => .ok (b.isClosed id, b)

/-- Gives a block its terminator. -/
def closeBlock (id : IR.BlockId) (t : IR.Terminator) : Lower Unit := fun b =>
  .ok ((), b.update id (·.close t))

/-- Gives the current block its terminator. -/
def close (t : IR.Terminator) : Lower Unit := do closeBlock (← currentBlock) t

/-- Goes on from a block to another, unless the block has its terminator already. -/
def fallFrom (id target : IR.BlockId) : Lower Unit := do
  if ← isClosed id then pure () else closeBlock id (.jump target)

/-- Goes on from the current block to another. -/
def fallInto (target : IR.BlockId) : Lower Unit := do fallFrom (← currentBlock) target

end Lower

end Laye
