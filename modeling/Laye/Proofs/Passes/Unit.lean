import Laye.Compilation
import Laye.Proofs.Bounds.Lowering
import Laye.Proofs.Independence.Unit
import Laye.Proofs.Passes.Lowering

/-!
# The passes over a unit

The passes of a compilation share one log. Where one of them gives no result, a guard demands a new
error, and the pass traps if there is none. `Pass.check` declares the symbols, resolves their types
and walks over the bodies; `Pass.lower` lowers a program; `Pass.build` does both, and before it
lowers it looks at all that lowering reads.

No pass traps, and what they come to is what `checkProgram`, `Typed.Program.lower` and
`Compilation.build` say, with the diagnostics after those that were there before (`Pass.check_eq`,
`Pass.lower_eq`, `Pass.build_eq`). -/

namespace Laye

open Declarations (Starts ofTrees)
open Diagnostic (errorCount)
open Step (demanding nested outcome Runs bind_none bind_some)

/-! ### What is built -/

namespace Compilation

variable {keepGoing : Bool} {name : String} {trees : List SyntaxTree} {p : Typed.Program}

theorem build_of_refused (h : (checkProgram keepGoing trees).program = none) :
    build keepGoing name trees = check keepGoing trees := by
  have hcheck : (check keepGoing trees).program = none := h
  simp only [build, hcheck]

theorem build_of_lowered {m : IR.Module} (h : (checkProgram keepGoing trees).program = some p)
    (hlower : p.lower name = .ok m) :
    build keepGoing name trees = { check keepGoing trees with module := some m } := by
  have hcheck : (check keepGoing trees).program = some p := h
  simp only [build, hcheck, hlower]

theorem build_of_fault {fault : Fault} (h : (checkProgram keepGoing trees).program = some p)
    (hlower : p.lower name = .error fault) :
    build keepGoing name trees = { check keepGoing trees with
      diagnostics := (check keepGoing trees).diagnostics ++
        [(Finding.fault fault).toDiagnostic] } := by
  have hcheck : (check keepGoing trees).program = some p := h
  simp only [build, hcheck, hlower]

end Compilation

/-! ### Passes -/

namespace Pass

/-- The context that the declarations of a unit leave. -/
def declarations (g : ErrorGuard) (tops : List TopLevel) : Step Log Context := do
  let scopes ← demanding g "declaring top-level symbols" (Guarded.declare tops)
  let symbols ← demanding g "resolving top-level types" (Guarded.populate tops scopes)
  pure ⟨symbols, scopes⟩

/-- The program that the bodies of a unit make up. -/
def program (keepGoing : Bool) (trees : List SyntaxTree) : Walk Typed.Program := do
  let decls ← Walk.bodies keepGoing (ofTrees trees)
  Walk.within fun ctx => pure ⟨Typing.roots trees decls, ctx.symbols⟩

/-- Checks a unit. The bodies are walked over in a session of their own. -/
def check (keepGoing : Bool) (trees : List SyntaxTree) : Step Log Typed.Program := fun log =>
  (declarations (.start log.diagnostics) (ofTrees trees) >>= fun ctx =>
    nested (Session.start · ctx) Session.toLog (program keepGoing trees)) log

/-- Lowers a program to a module of the given name. -/
def lower (name : String) (p : Typed.Program) : Step Log IR.Module := fun log =>
  demanding (.start log.diagnostics) "lowering failed" (Writer.plain.program p name) log

/-- Checks a unit and lowers it, if checking gave a program. -/
def build (keepGoing : Bool) (name : String) (trees : List SyntaxTree) (log : Log) :
    Except Trap ((Option Typed.Program × Option IR.Module) × Log) := do
  let (checked, log) ← check keepGoing trees log
  match checked with
  | none => .ok ((none, none), log)
  | some p => do
    p.decls.forM (Guarded.lookAtDecl p.symbols)
    let (module, log) ← lower name p log
    .ok ((some p, module), log)

/-! ### No guard is left unsatisfied -/

theorem demanding_eq {α : Type} {x : Step Log α} {result : Except Fault α} (h : Runs x result)
    {g : ErrorGuard} {log : Log} (hg : g.baseline ≤ errorCount log.diagnostics)
    (context : String) : demanding g context x log = .ok (outcome result log) := by
  cases result with
  | ok a => exact Step.demanding_some (h log)
  | error fault =>
    -- the guard counted no more than the errors in the log, and there is one more by now
    refine Step.demanding_none (h log) (Nat.lt_of_le_of_lt hg ?_)
    exact log.errorCount_extended [.fault fault] ▸ Nat.lt_succ_self _

variable (keepGoing : Bool) (name : String) (trees : List SyntaxTree) (log : Log)

/-- The passes report what the checker finds, in its order. -/
theorem check_eq : check keepGoing trees log = .ok ((checkProgram keepGoing trees).program,
    ⟨log.before, log.findings ++ (checkProgram keepGoing trees).findings⟩) := by
  have hdeclared := demanding_eq (Guarded.runs_declare (ofTrees trees))
    (Nat.le_refl (errorCount log.diagnostics)) "declaring top-level symbols"
  cases hdeclare : Declarations.declare (ofTrees trees) with
  | error fault =>
    rw [hdeclare] at hdeclared
    have hrun : declarations (.start log.diagnostics) (ofTrees trees) log =
        .ok (none, log.report (.fault fault)) := bind_none hdeclared _
    rw [check, bind_none hrun]
    simp only [checkProgram, hdeclare, Log.report]
  | ok scopes =>
    rw [hdeclare] at hdeclared
    have hresolved := demanding_eq (Guarded.runs_populate hdeclare)
      (Nat.le_refl (errorCount log.diagnostics)) "resolving top-level types"
    cases hpopulate : Declarations.populate (ofTrees trees) with
    | error fault =>
      rw [hpopulate] at hresolved
      have hrun : declarations (.start log.diagnostics) (ofTrees trees) log =
          .ok (none, log.report (.fault fault)) :=
        (bind_some hdeclared _).trans (bind_none hresolved _)
      rw [check, bind_none hrun]
      simp only [checkProgram, hdeclare, hpopulate, Log.report]
    | ok symbols =>
      rw [hpopulate] at hresolved
      have hrun : declarations (.start log.diagnostics) (ofTrees trees) log =
          .ok (some ⟨symbols, scopes⟩, log) :=
        (bind_some hdeclared _).trans (bind_some hresolved _)
      have hstarts : Starts (ofTrees trees) ⟨symbols, scopes⟩ := ⟨hdeclare, hpopulate⟩
      obtain ⟨result, σ, hbodies, -, hlog, hresult⟩ :=
        Walk.bodies_run hstarts log keepGoing List.prefix_rfl
      have hprogram : program keepGoing trees (.start log ⟨symbols, scopes⟩) =
          .ok (result.map fun decls => ⟨Typing.roots trees decls, σ.symbols⟩, σ) := by
        cases result with
        | none => exact bind_none hbodies _
        | some _ => exact bind_some hbodies _
      rw [check, bind_some hrun, Step.nested_eq (Session.start · _) Session.toLog hprogram,
        checkProgram_eq hstarts, ← hresult, hlog, Option.map_map]
      rfl

theorem lower_eq (p : Typed.Program) : lower name p log = .ok (outcome (p.lower name) log) :=
  demanding_eq (Writer.program_runs Writer.onOpen_plain p name) (Nat.le_refl _) _

/-- The passes build what the compiler builds and report what it reports. -/
theorem build_eq : ∃ log', build keepGoing name trees log =
      .ok (((Compilation.build keepGoing name trees).program,
        (Compilation.build keepGoing name trees).module), log') ∧
    log'.diagnostics = log.diagnostics ++ (Compilation.build keepGoing name trees).diagnostics := by
  have hcheck := check_eq keepGoing trees log
  have hfound : Log.diagnostics
      ⟨log.before, log.findings ++ (checkProgram keepGoing trees).findings⟩ =
      log.diagnostics ++ (Compilation.check keepGoing trees).diagnostics := by
    simp [Log.diagnostics, Compilation.check]
  simp only [build, hcheck, bind, Except.bind]
  cases hprogram : (checkProgram keepGoing trees).program with
  | none =>
    rw [Compilation.build_of_refused hprogram]
    refine ⟨_, ?_, hfound⟩
    simp only [Compilation.check, hprogram]
  | some p =>
    have hlooks : List.forM p.decls (Guarded.lookAtDecl p.symbols) = .ok () :=
      Guarded.lookAtDecls_eq_ok hprogram
    simp only [hlooks, lower_eq]
    cases hlower : p.lower name with
    | ok m =>
      rw [Compilation.build_of_lowered hprogram hlower]
      refine ⟨_, ?_, hfound⟩
      simp only [Compilation.check, hprogram, outcome]
    | error _ =>
      rw [Compilation.build_of_fault hprogram hlower]
      simp only [outcome, ← List.append_assoc, Compilation.check, hprogram]
      refine ⟨_, rfl, ?_⟩
      simp [Logs.report, Log.report, Log.diagnostics]

end Pass

end Laye
