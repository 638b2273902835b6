import Laye.Typing.Declarations
import Laye.Typing.Statement

/-!
# Checking a compilation unit

The files of a unit are checked together: first all names are declared, then the types of the
declarations are resolved, then the bodies of the functions are checked one by one. A fault in the
first two steps ends the check. A fault in a body does too, unless the check is told to keep going;
then the other functions are still looked at, but the unit stays refused.
-/

namespace Laye

/-- What checking came to: all that was found, and the checked program unless a fault is among
it. -/
structure Verdict where
  findings : List Finding
  program : Option Typed.Program
deriving Inhabited

/-- All that a refusal reports, in order. -/
def Refusal.findings (r : Refusal) : List Finding :=
  r.unreachable.map .unreachable ++ [.fault r.fault]

namespace Typing

/-- Declares the parameters of a function as variables. -/
def params : List (Param × Ty) → Check (List SymbolId)
  | [] => pure []
  | (param, ty) :: rest => do
    let symbol ← Check.declare param.name ty (.duplicateParameter param.name.name)
    let rest ← params rest
    pure (symbol :: rest)

/-- The body of a function that returns a type. -/
def body (returnType : Ty) : FunctionBody → Check Typed.Body
  | .empty _ => pure .empty
  | .block stmts span => do
    let stmts ← Check.inScope none (Stmt.checkBlock false stmts)
    pure (.block stmts span)
  | .expression value => do
    let value ← Check.attempt (exprAt (← Check.context) returnType value)
    pure (.expression value)

/-- The parameters and the body of a function. -/
def paramsAndBody (decl : FunctionDecl) (signature : Signature) :
    Check (List SymbolId × Typed.Body) := do
  let params ← params (decl.params.zip signature.paramTypes)
  let body ← body signature.returnType decl.body
  pure (params, body)

/-- A function, whose symbol has the given id. -/
def function (id : SymbolId) (decl : FunctionDecl) : Check Typed.Function := do
  let library ← Check.attempt (Declarations.libraryOf decl.modifiers none)
  match ((← Check.context).symbolAt id).signature? with
  | none => Check.refuse decl.name.span (.noFunctionType decl.name.name)
  | some signature => do
    let (params, body) ← Check.inScope (some id) (paramsAndBody decl signature)
    pure ⟨id, decl.name.name, decl.name.span, params, library, body, decl.span⟩

/-- A declaration, whose symbol has the given id. -/
def decl (id : SymbolId) : TopLevel → Check Typed.Decl
  | .struct decl => pure (.struct id decl.span)
  | .enum decl => pure (.enum id decl.span)
  | .function decl => do
    let function ← function id decl
    pure (.function function)

/-- Declarations, whose symbols have the ids from `id` on. One that is refused leaves the context
as it was before it. -/
def decls (keepGoing : Bool) :
    SymbolId → Context → List TopLevel → List Finding × Option (List Typed.Decl × Context)
  | _, ctx, [] => ([], some ([], ctx))
  | id, ctx, first :: rest =>
    match decl id first ⟨ctx, []⟩ with
    | .error refusal =>
      let later := if keepGoing then (decls keepGoing (id + 1) ctx rest).1 else []
      (refusal.findings ++ later, none)
    | .ok (first, after) =>
      let (findings, checked) := decls keepGoing (id + 1) after.toContext rest
      (after.unreachable.map .unreachable ++ findings,
        checked.map fun (rest, ctx) => (first :: rest, ctx))

/-- Divides checked declarations among the files they come from. -/
def roots : List SyntaxTree → List Typed.Decl → List Typed.Root
  | [], _ => []
  | tree :: trees, decls =>
    ⟨tree.sourceName, decls.take tree.decls.length⟩ :: roots trees (decls.drop tree.decls.length)

end Typing

/-- Checks the files of a compilation unit. -/
def checkProgram (keepGoing : Bool) (trees : List SyntaxTree) : Verdict :=
  let topLevels := Declarations.ofTrees trees
  match Declarations.declare topLevels with
  | .error fault => ⟨[.fault fault], none⟩
  | .ok globals =>
    match Declarations.populate topLevels with
    | .error fault => ⟨[.fault fault], none⟩
    | .ok symbols =>
      let (findings, checked) := Typing.decls keepGoing 0 ⟨symbols, globals⟩ topLevels
      ⟨findings, checked.map fun (decls, ctx) => ⟨Typing.roots trees decls, ctx.symbols⟩⟩

end Laye
