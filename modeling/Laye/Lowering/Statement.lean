import Laye.Lowering.Expression

/-!
# Lowering statements

A statement adds code from the current block on and leaves the current block where control goes on
after it, or closed if control never does. Nothing is added after that: the statements of a block
are lowered until one of them closes the current block.
-/

namespace Laye

/-- Where `continue` and `break` go in a loop. -/
structure LoopTargets where
  continueTarget : IR.BlockId
  breakTarget : IR.BlockId
deriving Inhabited

namespace Lowering

/-- A conditional without `else`. -/
def ifThen (condition : Lower IR.Value) (thenBody : Lower Unit) : Lower Unit := do
  let condition ← condition
  let thenBlock ← Lower.newBlock "if.then"
  let endBlock ← Lower.newBlock "if.end"
  Lower.close (.branch condition thenBlock endBlock)
  Lower.moveTo thenBlock
  thenBody
  Lower.fallInto endBlock
  Lower.moveTo endBlock

/-- Joins the ends of two branches in a new block, if one of them is open. -/
def join (thenExit elseExit : IR.BlockId) : Lower Unit := do
  if (← Lower.isClosed thenExit) && (← Lower.isClosed elseExit) then pure ()
  else do
    let endBlock ← Lower.newBlock "if.end"
    Lower.fallFrom thenExit endBlock
    Lower.fallFrom elseExit endBlock
    Lower.moveTo endBlock

/-- A conditional with `else`. -/
def ifThenElse (condition : Lower IR.Value) (thenBody elseBody : Lower Unit) : Lower Unit := do
  let condition ← condition
  let thenBlock ← Lower.newBlock "if.then"
  let elseBlock ← Lower.newBlock "if.else"
  Lower.close (.branch condition thenBlock elseBlock)
  Lower.moveTo thenBlock
  thenBody
  let thenExit ← Lower.currentBlock
  Lower.moveTo elseBlock
  elseBody
  let elseExit ← Lower.currentBlock
  join thenExit elseExit

/-- A loop, whose body is told where `continue` and `break` go. -/
def loop (condition : Lower IR.Value) (body : LoopTargets → Lower Unit) : Lower Unit := do
  let conditionBlock ← Lower.newBlock "while.cond"
  let bodyBlock ← Lower.newBlock "while.body"
  let endBlock ← Lower.newBlock "while.end"
  Lower.fallInto conditionBlock
  Lower.moveTo conditionBlock
  let condition ← condition
  Lower.close (.branch condition bodyBlock endBlock)
  Lower.moveTo bodyBlock
  body ⟨conditionBlock, endBlock⟩
  Lower.fallInto conditionBlock
  Lower.moveTo endBlock

/-- A jump to one of the targets of the loop around it. -/
def loopJump (loop : Option LoopTargets) (target : LoopTargets → IR.BlockId) (span : Span) :
    Lower Unit :=
  match loop with
  | some targets => Lower.close (.jump (target targets))
  | none => Lower.refuse span .strayLoopControl

/-- A value that may be missing. -/
def optionalValue (symbols : SymbolTable) : Option Typed.Expr → Lower (Option IR.Value)
  | none => pure none
  | some e => do
    let value ← e.lowerValue symbols
    pure (some value)

/-- A variable with its first value. -/
def binding (symbols : SymbolTable) (symbol : SymbolId) (value : Option Typed.Expr) :
    Lower Unit := do
  let slot ← Lower.reserve (symbols.symbolAt symbol).ty.shape
  match ← optionalValue symbols value with
  | some value => Lower.storeSlot slot value
  | none => pure ()
  Lower.bindSlot symbol slot

end Lowering

namespace Typed.Stmt

mutual

/-- Lowers a statement, given the loop it stands in. -/
def lower (symbols : SymbolTable) (loop : Option LoopTargets) : Stmt → Lower Unit
  | .block stmts _ => lowerBlock symbols loop stmts
  | .binding symbol value _ => Lowering.binding symbols symbol value
  | .expression value => do
    let _ ← value.lowerValue symbols
    pure ()
  | .ret value _ => do
    let value ← Lowering.optionalValue symbols value
    Lower.close (.ret value)
  | .assign target value _ => do
    let address ← target.lowerAddress symbols
    let value ← value.lowerValue symbols
    Lower.emit (.store address value)
  | .conditional condition thenBody none _ =>
    Lowering.ifThen (condition.lowerValue symbols) (thenBody.lower symbols loop)
  | .conditional condition thenBody (some elseBody) _ =>
    Lowering.ifThenElse (condition.lowerValue symbols) (thenBody.lower symbols loop)
      (elseBody.lower symbols loop)
  | .whileLoop condition body none _ =>
    Lowering.loop (condition.lowerValue symbols) fun targets => body.lower symbols (some targets)
  | .whileLoop _ _ (some _) span => Lower.refuse span .whileElse
  | .breakLoop span => Lowering.loopJump loop LoopTargets.breakTarget span
  | .continueLoop span => Lowering.loopJump loop LoopTargets.continueTarget span
  | .yield _ span => Lower.refuse span .yieldUnsupported
  | .deadCode _ _ => pure ()

/-- Lowers statements until the current block is closed. -/
def lowerBlock (symbols : SymbolTable) (loop : Option LoopTargets) : List Stmt → Lower Unit
  | [] => pure ()
  | stmt :: rest => do
    if ← Lower.isClosed (← Lower.currentBlock) then pure ()
    else do
      stmt.lower symbols loop
      lowerBlock symbols loop rest

end

end Typed.Stmt

end Laye
