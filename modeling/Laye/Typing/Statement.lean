import Laye.Typing.Expression
import Laye.Typing.TypeNames

/-!
# Typing statements

Checking a statement may declare variables, open and close scopes, and find code that cannot be
reached. `Check` threads what is known so far through the statements of one function, and stops at
the first fault, keeping the warnings that came before it.

A statement after one that always exits can never run. It is checked all the same, and put away in
a single `Typed.Stmt.deadCode`.
-/

namespace Laye

/-- Why a function is refused: a fault, and the unreachable code found before it. -/
structure Refusal where
  unreachable : List Span
  fault : Fault
deriving Inhabited

/-- What is known at a point of a function, and the unreachable code found on the way there. -/
structure Progress extends Context where
  unreachable : List Span
deriving Inhabited

/-- A step of checking a function. -/
abbrev Check (α : Type) : Type := StateT Progress (Except Refusal) α

namespace Check

/-- Goes on with a result, or stops at a fault. -/
def attempt {α : Type} (result : Except Fault α) : Check α := fun s =>
  match result with
  | .ok a => .ok (a, s)
  | .error fault => .error ⟨s.unreachable, fault⟩

/-- Stops at a fault. -/
def refuse {α : Type} (span : Span) (problem : Problem) : Check α :=
  attempt (.error ⟨span, problem⟩)

/-- What names mean at this point. -/
def context : Check Context := fun s => .ok (s.toContext, s)

/-- Notes unreachable code. -/
def warn (span : Span) : Check Unit := fun s =>
  .ok ((), { s with unreachable := s.unreachable ++ [span] })

/-- Opens a scope, for a function if one is given. -/
def openScope (function : Option SymbolId) : Check Unit := fun s =>
  .ok ((), { s with scopes := s.scopes.push function })

/-- Closes the innermost scope. -/
def closeScope : Check Unit := fun s => .ok ((), { s with scopes := s.scopes.pop })

/-- Runs a step inside a scope of its own, for a function if one is given. -/
def inScope {α : Type} (function : Option SymbolId) (step : Check α) : Check α := do
  openScope function
  let a ← step
  closeScope
  pure a

/-- Declares a variable in the innermost scope, which must not have the name yet. -/
def declare (ident : Ident) (ty : Ty) (duplicate : Problem) : Check SymbolId := fun s =>
  let id := s.symbols.length
  match s.scopes.add ident.name id with
  | some scopes =>
    .ok (id, { s with symbols := s.symbols ++ [⟨ident.name, .binding, ident.span, ty⟩],
                      scopes := scopes })
  | none => .error ⟨s.unreachable, ⟨ident.span, duplicate⟩⟩

end Check

/-- What type names mean inside a function. A local name hides a type of the same name. -/
def Context.typeNames (ctx : Context) : TypeNames where
  isStruct name :=
    match ctx.scopes.lookup name with
    | some id => (ctx.symbolAt id).kind = .struct
    | none => false
  resolve ident :=
    match ctx.scopes.lookup ident.name with
    | none => .error ⟨ident.span, .unknownType ident.name⟩
    | some id =>
      let symbol := ctx.symbolAt id
      if symbol.kind.isType then .ok symbol.ty else .error ⟨ident.span, .notAType ident.name⟩

/-- The signature of the function that a scope belongs to. -/
def Context.enclosingSignature? (ctx : Context) : Option Signature :=
  ctx.scopes.enclosingFunction.bind fun id => (ctx.symbolAt id).signature?

namespace Typing

/-- An expression at a given type. -/
def exprAt (ctx : Context) (ty : Ty) (e : Expr) : Except Fault Typed.Expr := do
  let e ← e.check ctx
  e.convertTo ty

/-- An expression of a type of its own. -/
def exprAlone (ctx : Context) (e : Expr) : Except Fault Typed.Expr := do
  let e ← e.check ctx
  e.withDefaultType

/-- An expression that may be missing. -/
def optional (check : Expr → Except Fault Typed.Expr) :
    Option Expr → Except Fault (Option Typed.Expr)
  | none => .ok none
  | some e => do
    let e ← check e
    .ok (some e)

/-- The type and the value of a declared variable. -/
def bindingParts (ctx : Context) (ty : Option TypeExpr) (ident : Ident) (value : Option Expr)
    (span : Span) : Except Fault (Ty × Option Typed.Expr) := do
  let (ty, value) ←
    match ty, value with
    | some ty, value => do
      let ty ← ty.resolve ctx.typeNames
      let value ← optional (exprAt ctx ty) value
      .ok (ty, value)
    | none, some value => do
      let value ← exprAlone ctx value
      .ok (value.ty, some value)
    | none, none => .error ⟨ident.span, .untypedBinding⟩
  if ty.isVoid then .error ⟨span, .voidBinding ident.name⟩ else .ok (ty, value)

/-- The value of a `return`. -/
def returnValue (ctx : Context) (value : Option Expr) (span : Span) :
    Except Fault (Option Typed.Expr) :=
  match ctx.enclosingSignature? with
  | none => .error ⟨span, .returnOutsideFunction⟩
  | some signature =>
    match value, signature.returnType.isVoid with
    | some value, true => .error ⟨value.span, .returnFromVoid signature.name⟩
    | none, true => .ok none
    | none, false => .error ⟨span, .missingReturnValue signature.name signature.returnType⟩
    | some value, false => do
      let value ← exprAt ctx signature.returnType value
      .ok (some value)

/-- The two sides of an assignment. -/
def assignment (ctx : Context) (target value : Expr) : Except Fault (Typed.Expr × Typed.Expr) := do
  let target ← target.check ctx
  if !target.isPlaceIn ctx then target.fault .assignToValue
  match target.readOnlyContainer? with
  | some container => target.fault (.assignReadOnly container)
  | none => do
    let value ← exprAt ctx target.ty value
    .ok (target, value)

/-- `break` and `continue` stand in a loop. -/
def loopControl (inLoop : Bool) (keyword : String) (span : Span) : Except Fault Unit :=
  if inLoop then .ok () else .error ⟨span, .outsideLoop keyword⟩

/-- The span of statements that follow one another. -/
def stretch? : List Stmt → Option Span
  | [] => none
  | first :: rest => some (first.span.combine ((rest.getLast?.getD first).span))

end Typing

namespace Stmt

open Check (attempt context)

mutual

/-- Types a statement, given whether it stands in a loop. -/
def check (inLoop : Bool) : Stmt → Check Typed.Stmt
  | .block stmts span => do
    let stmts ← Check.inScope none (checkBlock inLoop stmts)
    pure (.block stmts span)
  | .binding ty ident value span => do
    let (ty, value) ← attempt (Typing.bindingParts (← context) ty ident value span)
    let symbol ← Check.declare ident ty (.duplicateBinding ident.name)
    pure (.binding symbol value span)
  | .expression value => do
    let value ← attempt (Typing.exprAlone (← context) value)
    pure (.expression value)
  | .ret value span => do
    let value ← attempt (Typing.returnValue (← context) value span)
    pure (.ret value span)
  | .assign target value span => do
    let (target, value) ← attempt (Typing.assignment (← context) target value)
    pure (.assign target value span)
  | .conditional condition thenBody elseBody span => do
    let condition ← attempt (Typing.exprAt (← context) .bool condition)
    let thenBody ← Check.inScope none (thenBody.check inLoop)
    let elseBody ← checkElse inLoop elseBody
    pure (.conditional condition thenBody elseBody span)
  | .whileLoop condition body elseBody span => do
    let condition ← attempt (Typing.exprAt (← context) .bool condition)
    let body ← Check.inScope none (body.check true)
    let elseBody ← checkElse inLoop elseBody
    pure (.whileLoop condition body elseBody span)
  | .breakLoop span => do
    attempt (Typing.loopControl inLoop "break" span)
    pure (.breakLoop span)
  | .continueLoop span => do
    attempt (Typing.loopControl inLoop "continue" span)
    pure (.continueLoop span)
  | .yield value span => do
    let value ← attempt (Typing.optional (Typing.exprAlone (← context)) value)
    pure (.yield value span)

/-- Types the statements of a block. Those after one that always exits become dead code. -/
def checkBlock (inLoop : Bool) : List Stmt → Check (List Typed.Stmt)
  | [] => pure []
  | stmt :: rest => do
    let stmt ← stmt.check inLoop
    if stmt.alwaysExits then
      match Typing.stretch? rest with
      | none => pure [stmt]
      | some span => do
        Check.warn span
        let dead ← checkAll inLoop rest
        pure [stmt, .deadCode dead span]
    else do
      let rest ← checkBlock inLoop rest
      pure (stmt :: rest)

/-- Types statements one after another. -/
def checkAll (inLoop : Bool) : List Stmt → Check (List Typed.Stmt)
  | [] => pure []
  | stmt :: rest => do
    let stmt ← stmt.check inLoop
    let rest ← checkAll inLoop rest
    pure (stmt :: rest)

/-- Types an `else` body, which may be missing. -/
def checkElse (inLoop : Bool) : Option Stmt → Check (Option Typed.Stmt)
  | none => pure none
  | some stmt => do
    let stmt ← Check.inScope none (stmt.check inLoop)
    pure (some stmt)

end

end Stmt

end Laye
