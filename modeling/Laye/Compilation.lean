import Laye.Lowering.Program
import Laye.Report
import Laye.Typing.Program

/-!
# Compiling

`Compilation.check` checks the files of a unit together; `Compilation.build` also lowers the
program, if checking gave one.
-/

namespace Laye

/-- All that compiling a unit came to. -/
structure Compilation where
  /-- The names of the sources, in order. -/
  sources : List String
  diagnostics : List Diagnostic
  /-- The checked program, unless checking failed. -/
  program : Option Typed.Program
  /-- The lowered module, unless lowering failed or was not asked for. -/
  module : Option IR.Module
  stats : Report.Stats
deriving Inhabited

namespace Compilation

/-- Why there is no module, with the number of errors. -/
inductive Failure where
  | checking (errors : Nat)
  | lowering (errors : Nat)
deriving DecidableEq, Repr, Inhabited

/-- The wording of a failure. -/
def Failure.message : Failure → String
  | .checking errors => "Semantic checking failed with " ++ toString errors ++ " error(s)"
  | .lowering errors => "Lowering failed with " ++ toString errors ++ " error(s)"

/-- Whether the declaration is a function with a body. -/
def isDefinition : Typed.Decl → Bool
  | .function f =>
    match f.body with
    | .empty => false
    | _ => true
  | _ => false

/-- Whether the declaration is a function without a body. -/
def isExternal : Typed.Decl → Bool
  | .function f =>
    match f.body with
    | .empty => true
    | _ => false
  | _ => false

/-- Whether the declaration is that of a type. -/
def isType : Typed.Decl → Bool
  | .struct _ _ | .enum _ _ => true
  | .function _ => false

/-- How much there is in a program. -/
def countDecls (p : Typed.Program) : Report.Stats :=
  { functions := p.decls.countP isDefinition
    externals := p.decls.countP isExternal
    types := p.decls.countP isType }

/-- Checks a unit. -/
def check (keepGoing : Bool) (trees : List SyntaxTree) : Compilation :=
  let verdict := checkProgram keepGoing trees
  { sources := trees.map SyntaxTree.sourceName
    diagnostics := verdict.findings.map Finding.toDiagnostic
    program := verdict.program
    module := none
    stats :=
      match verdict.program with
      | some program => countDecls program
      | none => {} }

/-- Checks a unit and lowers it to a module of the given name. -/
def build (keepGoing : Bool) (moduleName : String) (trees : List SyntaxTree) : Compilation :=
  let c := check keepGoing trees
  match c.program with
  | none => c
  | some program =>
    match program.lower moduleName with
    | .ok module => { c with module := some module }
    | .error fault =>
      { c with diagnostics := c.diagnostics ++ [(Finding.fault fault).toDiagnostic] }

/-- The report of a compilation. -/
def report (c : Compilation) : Report := .ofDiagnostics c.sources c.diagnostics c.stats

/-- The module, or which step failed. -/
def result (c : Compilation) : Except Failure IR.Module :=
  match c.module, c.program with
  | some module, _ => .ok module
  | none, none => .error (.checking (Diagnostic.errorCount c.diagnostics))
  | none, some _ => .error (.lowering (Diagnostic.errorCount c.diagnostics))

end Compilation

end Laye
