import Laye.Lowering.Builder
import Laye.Lowering.Shape

/-!
# Lowering expressions

The code of an expression leaves an `Operand`: a value, or the address of the place that holds it.
Whoever uses it asks for the one or the other, and gets it by a load from the place or by a store
of the value into a slot of its own.
-/

namespace Laye

/-- What the code of an expression leaves. -/
inductive Operand where
  | value (value : IR.Value)
  | place (address : IR.Value)
deriving Inhabited

namespace Operand

/-- The value of an operand of a type. -/
def load (ty : Ty) : Operand → Lower IR.Value
  | .value v => pure v
  | .place ptr => Lower.define fun dest => .load dest ptr ty.shape

/-- An address at which an operand of a type is found. -/
def address (ty : Ty) : Operand → Lower IR.Value
  | .place ptr => pure ptr
  | .value v => do
    let slot ← Lower.reserve ty.shape
    Lower.storeSlot slot v
    pure (.register slot)

end Operand

namespace Lowering

/-- An instruction that gives a fresh register, as a value. -/
def computed (i : IR.Register → IR.Instruction) : Lower Operand := do
  let value ← Lower.define i
  pure (.value value)

/-- A constant. -/
def constant (c : IR.Constant) : Lower Operand := pure (.value (.constant c))

/-- The integer of a magnitude and a sign. -/
def signed (magnitude : Nat) (negative : Bool) : Int :=
  if negative then -(magnitude : Int) else magnitude

/-- A symbol as a value: a variable by its slot, a function by its name. -/
def symbol (symbols : SymbolTable) (id : SymbolId) (span : Span) : Lower Operand := do
  match ← Lower.slotOf? id with
  | some slot => pure (.place (.register slot))
  | none =>
    let symbol := symbols.symbolAt id
    if symbol.kind = .function then pure (.value (.global symbol.name))
    else Lower.refuse span (.noStorage symbol.name)

/-- A call of a function by name, which leaves a value unless its type is void. -/
def call (name : String) (ty : Ty) (args : List IR.Value) : Lower Operand :=
  if ty.isVoid then do
    Lower.emit (.call none name args)
    pure (.value .unit)
  else computed fun dest => .call (some dest) name args

/-- The labels of the blocks of a short-circuit operator. -/
def circuitLabels (isAnd : Bool) : String × String :=
  if isAnd then ("and.rhs", "and.end") else ("or.rhs", "or.end")

/-- A truth operator whose right operand only runs if the left one leaves the result open. The
result passes through a slot. -/
def shortCircuit (isAnd : Bool) (left right : Lower IR.Value) : Lower Operand := do
  let slot ← Lower.reserve .bool
  let lhs ← left
  Lower.storeSlot slot lhs
  let rhsBlock ← Lower.newBlock (circuitLabels isAnd).1
  let endBlock ← Lower.newBlock (circuitLabels isAnd).2
  Lower.close (if isAnd then .branch lhs rhsBlock endBlock else .branch lhs endBlock rhsBlock)
  Lower.moveTo rhsBlock
  let rhs ← right
  Lower.storeSlot slot rhs
  Lower.fallInto endBlock
  Lower.moveTo endBlock
  computed fun dest => .load dest (.register slot) .bool

/-- The address that the elements of a container start at, given the step that lowers it. -/
def elements (target : Typed.Expr) (lowered : Lower Operand) : Lower IR.Value :=
  match target.ty with
  | .array _ _ _ => do (← lowered).address target.ty
  | .pointer _ _ | .buffer _ _ | .rawptr => do (← lowered).load target.ty
  | .slice _ _ | .string => do
    let value ← (← lowered).load target.ty
    Lower.define fun dest => .sliceData dest value
  | ty => Lower.refuse target.span (.notIndexable ty)

/-- The address of an element, given the steps that lower the container and the index. -/
def element (ty : Ty) (base index : Lower IR.Value) : Lower Operand := do
  let base ← base
  let index ← index
  let address ← Lower.define fun dest => .element dest base index ty.shape
  pure (.place address)

/-- The address of a field, given the step that lowers the struct. -/
def field (target : Typed.Expr) (lowered : Lower Operand) (place : Nat) : Lower Operand :=
  match target.ty with
  | .struct name _ _ => do
    let base ← (← lowered).address target.ty
    let address ← Lower.define fun dest => .field dest base name place
    pure (.place address)
  | ty => Lower.refuse target.span (.noFields ty)

end Lowering

namespace Typed.Expr

open Lowering (computed constant)

mutual

/-- Lowers an expression. -/
def lower (symbols : SymbolTable) : Expr → Lower Operand
  | .integer _ _ magnitude negative => constant (.int (Lowering.signed magnitude negative))
  | .float _ _ value => constant (.float value)
  | .bool _ _ value => constant (.bool value)
  | .string _ _ value => constant (.string value)
  | .load _ span symbol => Lowering.symbol symbols symbol span
  | .cast ty _ inner => do
    let value ← (← inner.lower symbols).load inner.ty
    computed fun dest => .cast dest value inner.ty.shape ty.shape
  | .materialize ty _ inner => do
    let value ← (← inner.lower symbols).load inner.ty
    computed fun dest => .materialize dest value ty.shape
  | .invoke ty _ function args => do
    let args ← lowerAll symbols args
    Lowering.call (symbols.symbolAt function).name ty args
  | .unary _ _ op operand => do
    let value ← (← operand.lower symbols).load operand.ty
    computed fun dest => .unary dest op.operation value
  | .binary _ _ op left right =>
    if op.isLogical then
      Lowering.shortCircuit (op == .logicalAnd)
        (do (← left.lower symbols).load left.ty) (do (← right.lower symbols).load right.ty)
    else do
      let lhs ← (← left.lower symbols).load left.ty
      let rhs ← (← right.lower symbols).load right.ty
      computed fun dest => .binary dest op.operation lhs rhs left.ty.shape
  | .addressOf _ _ inner => do
    let address ← (← inner.lower symbols).address inner.ty
    pure (.value address)
  | .dereference _ _ inner => do
    let address ← (← inner.lower symbols).load inner.ty
    pure (.place address)
  | .index ty _ target i =>
    Lowering.element ty (Lowering.elements target (target.lower symbols))
      (do (← i.lower symbols).load i.ty)
  | .field _ _ target _ place => Lowering.field target (target.lower symbols) place

/-- Lowers expressions from left to right, to their values. -/
def lowerAll (symbols : SymbolTable) : List Expr → Lower (List IR.Value)
  | [] => pure []
  | e :: es => do
    let value ← (← e.lower symbols).load e.ty
    let values ← lowerAll symbols es
    pure (value :: values)

end

/-- Lowers an expression to its value. -/
def lowerValue (symbols : SymbolTable) (e : Expr) : Lower IR.Value := do
  (← e.lower symbols).load e.ty

/-- Lowers an expression to the address of its place. -/
def lowerAddress (symbols : SymbolTable) (e : Expr) : Lower IR.Value := do
  (← e.lower symbols).address e.ty

end Typed.Expr

end Laye
