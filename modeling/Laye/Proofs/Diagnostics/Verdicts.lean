import Laye.Proofs.Passes.Unit

/-!
# Verdicts and diagnostics agree

A pass that gives its result reports no error, and one that gives none reports why. In the passes a
report and a stop are steps of their own (`Step`), so this is a property of every exit; the passes
are followed through all of them in `Passes`. Here it is stated about the log: a declaration that
stops adds one error, the last of what it adds (`Walk.decl_gains`), a check that accepts adds none
(`checkProgram_isNone`), a check that stops at the first refusal adds one at the end
(`checkProgram_stops`), and one that keeps going adds one for each function that is refused
(`countP_checkProgram`).

Which functions are refused does not depend on what was checked before them
(`Context.Reaches.refuses_eq`), so they can be counted in the context that the declarations leave.
`diagnostics_agree` says all of this about the passes, and what follows for a build.
-/

namespace Laye

open Finding (isFault)
open Declarations (Starts ofTrees)
open Diagnostic (errorCount errorCount_append errorCount_findings errorCount_fault)

/-! ### Refused functions -/

namespace Typing

/-- Whether the declaration is a function whose check fails in the context. -/
def refuses (ctx : Context) (id : SymbolId) : TopLevel → Bool
  | .function decl => !(function id decl ⟨ctx, []⟩).isOk
  | .struct _ | .enum _ => false

/-- How many functions of a unit fail in the context. -/
def refusals (ctx : Context) (tops : List TopLevel) : Nat :=
  tops.zipIdx.countP fun (top, id) => refuses ctx id top

theorem isOk_decl (ctx : Context) (id : SymbolId) (top : TopLevel) :
    (decl id top ⟨ctx, []⟩).isOk = !refuses ctx id top := by
  cases top with
  | struct decl | enum _ => rfl
  | function decl =>
    rw [refuses, Bool.not_not]
    change (function id decl ⟨ctx, []⟩ >>= fun r =>
      Except.ok (Typed.Decl.function r.1, r.2)).isOk = _
    cases function id decl ⟨ctx, []⟩ <;> rfl

end Typing

open Typing (refuses refusals)

/-! ### Faults among findings -/

theorem Finding.countP_unreachable (spans : List Span) :
    (spans.map Finding.unreachable).countP isFault = 0 := by
  rw [List.countP_map]
  exact List.countP_eq_zero.mpr fun span _ => by simp [isFault]

theorem Finding.exists_spans {findings : List Finding}
    (h : ∀ finding ∈ findings, finding.isFault = false) :
    ∃ spans : List Span, findings = spans.map .unreachable := by
  induction findings with
  | nil => exact ⟨[], rfl⟩
  | cons finding _ ih =>
    obtain ⟨hfinding, hrest⟩ := List.forall_mem_cons.mp h
    obtain ⟨spans, rfl⟩ := ih hrest
    cases finding with
    | fault f => cases hfinding
    | unreachable span => exact ⟨span :: spans, rfl⟩

namespace Typing

theorem decls_isNone (keepGoing : Bool) (rest : List TopLevel) (id : SymbolId) (ctx : Context) :
    (decls keepGoing id ctx rest).2 = none ↔
      0 < (decls keepGoing id ctx rest).1.countP isFault := by
  induction rest generalizing id ctx with
  | nil => simp [decls]
  | cons first _ ih =>
    unfold decls
    cases decl id first ⟨ctx, []⟩ with
    | error refusal =>
      simp only [List.countP_append, refusal.countP_findings, true_iff]
      omega
    | ok r =>
      simp only [List.countP_append, Finding.countP_unreachable, Nat.zero_add,
        Option.map_eq_none_iff]
      exact ih _ _

variable {rest : List TopLevel}

theorem decls_stops {id : SymbolId} {ctx : Context} (h : (decls false id ctx rest).2 = none) :
    ∃ (spans : List Span) (fault : Fault), (decls false id ctx rest).1 =
      spans.map .unreachable ++ [.fault fault] := by
  induction rest generalizing id ctx with
  | nil => cases h
  | cons first _ ih =>
    unfold decls at h ⊢
    -- the first refusal ends the run, so what comes before it are warnings
    cases hdecl : decl id first ⟨ctx, []⟩ with
    | error refusal => exact ⟨refusal.unreachable, refusal.fault, by simp [Refusal.findings]⟩
    | ok r =>
      obtain ⟨d, after⟩ := r
      rw [hdecl] at h
      obtain ⟨spans, fault, hrest⟩ := ih (Option.map_eq_none_iff.mp h)
      exact ⟨after.unreachable ++ spans, fault, by simp [hrest]⟩

/-- There is a fault in what is reported about a function that is refused, and none otherwise. -/
theorem countP_reports (ctx : Context) (id : SymbolId) (top : TopLevel) :
    (reports ctx id top).countP isFault = if refuses ctx id top then 1 else 0 := by
  have hrefuses := isOk_decl ctx id top
  unfold reports
  cases hdecl : decl id top ⟨ctx, []⟩ with
  | error refusal =>
    rw [hdecl] at hrefuses
    have hrefused : refuses ctx id top = true := by
      simpa [Except.isOk, Except.toBool] using hrefuses
    rw [if_pos hrefused]
    exact refusal.countP_findings
  | ok r =>
    rw [hdecl] at hrefuses
    have hpasses : refuses ctx id top = false := by
      simpa [Except.isOk, Except.toBool] using hrefuses
    rw [hpasses]
    exact Finding.countP_unreachable _

theorem countP_allReports (start : Context) (id : SymbolId) (rest : List TopLevel) :
    (allReports start id rest).countP isFault =
      (rest.zipIdx id).countP fun (top, id) => refuses start id top := by
  induction rest generalizing id with
  | nil => rfl
  | cons first rest ih =>
    rw [allReports_cons, List.countP_append, countP_reports, ih, List.zipIdx_cons,
      List.countP_cons, Nat.add_comm]

end Typing

/-- Whether a function is refused does not depend on those that were checked before it. -/
theorem Context.Reaches.refuses_eq {tops : List TopLevel} {start ctx : Context} {id : SymbolId}
    {top : TopLevel} (hstarts : Starts tops start) (hctx : start.Reaches ctx)
    (htop : tops[id]? = some top) : refuses ctx id top = refuses start id top := by
  have hreports := hctx.reports_eq hstarts (List.getElem?_eq_some_iff.mp htop).1 top
  have hcount := congrArg (List.countP isFault) hreports
  rw [Typing.countP_reports, Typing.countP_reports] at hcount
  cases hnow : refuses ctx id top <;> cases hstart : refuses start id top <;>
    simp [hnow, hstart] at hcount ⊢

section Unit

variable {keepGoing : Bool} {trees : List SyntaxTree}

theorem checkProgram_isNone : (checkProgram keepGoing trees).program = none ↔
    0 < (checkProgram keepGoing trees).findings.countP isFault := by
  simp only [checkProgram]
  split
  · simp [isFault]
  · split
    · simp [isFault]
    · rw [Option.map_eq_none_iff]
      exact Typing.decls_isNone ..

/-- What is found about an accepted unit are statements that are not reached. -/
theorem checkProgram_accepts {p : Typed.Program}
    (h : (checkProgram keepGoing trees).program = some p) :
    ∃ spans : List Span, (checkProgram keepGoing trees).findings = spans.map .unreachable := by
  have hcount : ¬0 < (checkProgram keepGoing trees).findings.countP isFault := by
    rw [← checkProgram_isNone, h]
    simp
  refine Finding.exists_spans fun finding hfinding => ?_
  rw [List.countP_pos_iff, not_exists] at hcount
  exact Bool.not_eq_true _ ▸ fun hfault => hcount finding ⟨hfinding, hfault⟩

theorem checkProgram_stops (h : (checkProgram false trees).program = none) :
    ∃ (spans : List Span) (fault : Fault),
      (checkProgram false trees).findings = spans.map .unreachable ++ [.fault fault] := by
  simp only [checkProgram] at h ⊢
  split
  · exact ⟨[], _, rfl⟩
  · rename_i _ hdeclare
    rw [hdeclare] at h
    split
    · exact ⟨[], _, rfl⟩
    · rename_i _ hpopulate
      rw [hpopulate] at h
      exact Typing.decls_stops (Option.map_eq_none_iff.mp h)

theorem countP_checkProgram {start : Context} (h : Starts (ofTrees trees) start) :
    (checkProgram true trees).findings.countP isFault =
      refusals start (ofTrees trees) := by
  have hreports : (Typing.decls true 0 start (ofTrees trees)).1 =
      Typing.allReports start 0 (ofTrees trees) :=
    Typing.decls_reports h (.of_starts h) List.prefix_rfl
  rw [checkProgram_eq h, hreports]
  exact Typing.countP_allReports start 0 _

end Unit

/-! ### Diagnostics -/

theorem Diagnostic.hasErrors_iff {ds : List Diagnostic} :
    hasErrors ds = true ↔ 0 < errorCount ds := by
  rw [hasErrors, errorCount, count, List.countP_pos_iff, List.any_eq_true]
  rfl

/-- The log has gained warnings, and nothing else. -/
def Log.GainsWarnings (log log' : Log) : Prop :=
  ∃ warnings, log'.diagnostics = log.diagnostics ++ warnings ∧ ∀ d ∈ warnings, d.severity = .warning

/-- The log has gained exactly one error, after warnings. -/
def Log.GainsError (log log' : Log) : Prop :=
  ∃ warnings error, log'.diagnostics = log.diagnostics ++ warnings ++ [error] ∧
    error.severity = .error ∧ ∀ d ∈ warnings, d.severity = .warning

section Gains

variable (log : Log) (spans : List Span)

theorem Log.gainsWarnings_unreachable :
    log.GainsWarnings ⟨log.before, log.findings ++ spans.map .unreachable⟩ := by
  refine ⟨(spans.map Finding.unreachable).map Finding.toDiagnostic, by simp [diagnostics], ?_⟩
  intro d hd
  obtain ⟨_, hfinding, rfl⟩ := List.mem_map.mp hd
  obtain ⟨_, -, rfl⟩ := List.mem_map.mp hfinding
  rfl

theorem Log.gainsError_fault (fault : Fault) :
    log.GainsError ⟨log.before, log.findings ++ (spans.map .unreachable ++ [.fault fault])⟩ := by
  obtain ⟨warnings, hlog, hwarnings⟩ := log.gainsWarnings_unreachable spans
  refine ⟨warnings, (Finding.fault fault).toDiagnostic, ?_, rfl, hwarnings⟩
  rw [← hlog]
  simp [diagnostics]

end Gains

/-- How the walk over a declaration ends, where it stands: it gives a declaration and has reported
warnings only, or the declaration is refused, and it gives none and has reported one error. -/
def Walk.Agrees (id : SymbolId) (top : TopLevel) (σ : Session) : Prop :=
  (∃ d σ', decl id top σ = .ok (some d, σ') ∧ refuses σ.context id top = false ∧
    σ.toLog.GainsWarnings σ'.toLog) ∨
  ∃ σ', decl id top σ = .ok (none, σ') ∧ refuses σ.context id top = true ∧
    σ.toLog.GainsError σ'.toLog

/-- The verdict on a unit agrees with what is reported about it. -/
structure Verdict.Agrees (keepGoing : Bool) (trees : List SyntaxTree) : Prop where
  /-- The check comes to its verdict, appends to the diagnostics, and satisfies its guards. -/
  appends : ∀ log, ∃ log', Pass.check keepGoing trees log =
      .ok ((checkProgram keepGoing trees).program, log') ∧
    log'.diagnostics = log.diagnostics ++ (Compilation.check keepGoing trees).diagnostics
  /-- A check that gives a program has reported only warnings. -/
  accepted : ∀ log log' p, Pass.check keepGoing trees log = .ok (some p, log') →
    log.GainsWarnings log'
  /-- A check that stops at an error has reported it, after warnings. -/
  stops : keepGoing = false → ∀ log log', Pass.check keepGoing trees log = .ok (none, log') →
    log.GainsError log'
  /-- A check that gets past the declarations and keeps going reports an error for each function
  that is refused. -/
  counts : keepGoing = true → ∀ start, Starts (ofTrees trees) start →
    ∀ log log' result, Pass.check keepGoing trees log = .ok (result, log') →
      errorCount log'.diagnostics =
        errorCount log.diagnostics + refusals start (ofTrees trees)
  /-- So does the walk over each declaration, in the session that those before it leave. -/
  within : ∀ start σ id top, Starts (ofTrees trees) start → σ.InOrder start →
    (ofTrees trees)[id]? = some top → Walk.Agrees id top σ
  /-- The functions that are refused there are those that are refused at the start. -/
  refuses_eq : ∀ start ctx id top, Starts (ofTrees trees) start → start.Reaches ctx →
    (ofTrees trees)[id]? = some top → refuses ctx id top = refuses start id top

/-- Whether a program is lowered agrees with what is reported: nothing, or one error. The guard is
satisfied. -/
def Lowering.Agrees (name : String) (p : Typed.Program) : Prop :=
  ∀ log,
    (∃ m, p.lower name = .ok m ∧ Pass.lower name p log = .ok (some m, log)) ∨
    ∃ fault error log', p.lower name = .error fault ∧ error.severity = .error ∧
      Pass.lower name p log = .ok (none, log') ∧ log'.diagnostics = log.diagnostics ++ [error]

/-- What is built agrees with what is reported about it. -/
structure Compilation.Agrees (keepGoing : Bool) (name : String) (trees : List SyntaxTree)
    (c : Compilation) : Prop where
  /-- The build appends to the diagnostics, and satisfies all guards. -/
  appends : ∀ log, ∃ log', Pass.build keepGoing name trees log =
    .ok ((c.program, c.module), log') ∧ log'.diagnostics = log.diagnostics ++ c.diagnostics
  /-- There is a module if and only if there is no error. -/
  success : c.module.isSome = c.report.success
  checking : (∃ errors, c.result = .error (.checking errors)) ↔
    (checkProgram keepGoing trees).program = none
  lowering : (∃ errors, c.result = .error (.lowering errors)) ↔
    ∃ p fault, (checkProgram keepGoing trees).program = some p ∧ p.lower name = .error fault
  /-- A failure comes with an error at least. -/
  counts : ∀ errors, c.result = .error (.checking errors) ∨ c.result = .error (.lowering errors) →
    0 < errors

/-! ### Agreement -/

theorem Walk.decl_gains {tops : List TopLevel} {start : Context} {σ : Session} {id : SymbolId}
    {top : TopLevel} (hstarts : Starts tops start) (h : σ.InOrder start)
    (htop : tops[id]? = some top) : Walk.Agrees id top σ := by
  have hrefuses := Typing.isOk_decl σ.context id top
  rcases decl_cases hstarts h htop with ⟨d, s, hcheck, hwalk, -⟩ |
    ⟨refusal, σ', hcheck, hwalk, hlog, -⟩
  · rw [hcheck] at hrefuses
    refine .inl ⟨d, _, hwalk, ?_, σ.toLog.gainsWarnings_unreachable s.unreachable⟩
    simpa [Except.isOk, Except.toBool] using hrefuses
  · rw [hcheck] at hrefuses
    refine .inr ⟨σ', hwalk, by simpa [Except.isOk, Except.toBool] using hrefuses, ?_⟩
    rw [hlog]
    exact σ.toLog.gainsError_fault refusal.unreachable refusal.fault

theorem Verdict.agrees (keepGoing : Bool) (trees : List SyntaxTree) :
    Verdict.Agrees keepGoing trees where
  appends := by
    intro log
    refine ⟨_, Pass.check_eq keepGoing trees log, ?_⟩
    simp [Log.diagnostics, Compilation.check]
  accepted := by
    intro log log' p hrun
    rw [Pass.check_eq, Except.ok.injEq, Prod.mk.injEq] at hrun
    obtain ⟨hprogram, rfl⟩ := hrun
    obtain ⟨spans, hspans⟩ := checkProgram_accepts hprogram
    rw [hspans]
    exact log.gainsWarnings_unreachable spans
  stops := by
    rintro rfl log log' hrun
    rw [Pass.check_eq, Except.ok.injEq, Prod.mk.injEq] at hrun
    obtain ⟨hrefused, rfl⟩ := hrun
    obtain ⟨spans, fault, hfindings⟩ := checkProgram_stops hrefused
    rw [hfindings]
    exact log.gainsError_fault spans fault
  counts := by
    rintro rfl start hstart log log' result hrun
    rw [Pass.check_eq, Except.ok.injEq, Prod.mk.injEq] at hrun
    obtain ⟨-, rfl⟩ := hrun
    rw [log.errorCount_extended, countP_checkProgram hstart]
  within := fun _ _ _ _ hstarts horder htop => Walk.decl_gains hstarts horder htop
  refuses_eq := fun _ _ _ _ hstarts hctx htop => hctx.refuses_eq hstarts htop

theorem Lowering.agrees (name : String) (p : Typed.Program) : Lowering.Agrees name p := by
  intro log
  have hpass := Pass.lower_eq name log p
  cases hlower : p.lower name with
  | ok m =>
    rw [hlower] at hpass
    exact .inl ⟨m, rfl, hpass⟩
  | error fault =>
    rw [hlower] at hpass
    refine .inr ⟨fault, (Finding.fault fault).toDiagnostic, _, rfl, rfl, hpass, ?_⟩
    simp [Logs.report, Log.report, Log.diagnostics]

namespace Compilation

variable {keepGoing : Bool} {name : String} {trees : List SyntaxTree}

theorem errorCount_check : 0 < errorCount (check keepGoing trees).diagnostics ↔
    (checkProgram keepGoing trees).program = none := by
  rw [check, errorCount_findings, checkProgram_isNone]

theorem errorCount_build : 0 < errorCount (build keepGoing name trees).diagnostics ↔
    (build keepGoing name trees).module = none := by
  cases hprogram : (checkProgram keepGoing trees).program with
  | none =>
    rw [build_of_refused hprogram, errorCount_check, hprogram]
    simp [check]
  | some p =>
    have hcheck : ¬0 < errorCount (check keepGoing trees).diagnostics := by
      rw [errorCount_check, hprogram]
      simp
    cases hlower : p.lower name with
    | ok m =>
      rw [build_of_lowered hprogram hlower]
      simp [hcheck]
    | error _ =>
      rw [build_of_fault hprogram hlower, errorCount_append, errorCount_fault]
      simp [check]

theorem result_build (keepGoing : Bool) (name : String) (trees : List SyntaxTree) :
    let c := build keepGoing name trees
    ((checkProgram keepGoing trees).program = none ∧
      c.result = .error (.checking (errorCount c.diagnostics))) ∨
    (∃ p m, (checkProgram keepGoing trees).program = some p ∧ p.lower name = .ok m ∧
      c.result = .ok m) ∨
    ∃ p fault, (checkProgram keepGoing trees).program = some p ∧ p.lower name = .error fault ∧
      c.result = .error (.lowering (errorCount c.diagnostics)) := by
  intro c
  cases hprogram : (checkProgram keepGoing trees).program with
  | none =>
    refine .inl ⟨rfl, ?_⟩
    simp only [c, build_of_refused hprogram, result, check, hprogram]
  | some p =>
    cases hlower : p.lower name with
    | ok m =>
      refine .inr (.inl ⟨p, m, rfl, hlower, ?_⟩)
      simp only [c, build_of_lowered hprogram hlower, result]
    | error fault =>
      refine .inr (.inr ⟨p, fault, rfl, hlower, ?_⟩)
      simp only [c, build_of_fault hprogram hlower, result, check, hprogram]

theorem errors_of_result {c : Compilation} {errors : Nat}
    (h : c.result = .error (.checking errors) ∨ c.result = .error (.lowering errors)) :
    c.module = none ∧ errors = errorCount c.diagnostics := by
  unfold result at h
  cases hmodule : c.module with
  | some m => simp [hmodule] at h
  | none =>
    refine ⟨rfl, ?_⟩
    cases hprogram : c.program with
    | none | some p => simpa [hmodule, hprogram, eq_comm] using h

theorem agrees (keepGoing : Bool) (name : String) (trees : List SyntaxTree) :
    Agrees keepGoing name trees (build keepGoing name trees) where
  appends := Pass.build_eq keepGoing name trees
  success := by
    have herrors : Diagnostic.hasErrors (build keepGoing name trees).diagnostics = true ↔
        (build keepGoing name trees).module = none :=
      Diagnostic.hasErrors_iff.trans errorCount_build
    rw [report, Report.ofDiagnostics]
    cases hmodule : (build keepGoing name trees).module with
    | none => simp [herrors.mpr hmodule]
    | some m =>
      rw [hmodule] at herrors
      simpa using herrors
  checking := by
    rcases result_build keepGoing name trees with
      ⟨hprogram, hresult⟩ | ⟨p, m, hprogram, -, hresult⟩ | ⟨p, fault, hprogram, -, hresult⟩
    · simp [hprogram, hresult]
    · simp [hprogram, hresult]
    · simp [hprogram, hresult]
  lowering := by
    rcases result_build keepGoing name trees with ⟨hprogram, hresult⟩ |
      ⟨p, m, hprogram, hlower, hresult⟩ | ⟨p, fault, hprogram, hlower, hresult⟩
    · simp [hprogram, hresult]
    · simp [hprogram, hresult, hlower]
    · simp [hprogram, hresult, hlower]
  counts := by
    intro errors hfailure
    obtain ⟨hmodule, rfl⟩ := errors_of_result hfailure
    exact errorCount_build.mpr hmodule

end Compilation

/-- At every stage the verdict and the diagnostics agree. -/
theorem diagnostics_agree (keepGoing : Bool) (name : String) (trees : List SyntaxTree) :
    Verdict.Agrees keepGoing trees ∧ (∀ p, Lowering.Agrees name p) ∧
      Compilation.Agrees keepGoing name trees (Compilation.build keepGoing name trees) :=
  ⟨Verdict.agrees keepGoing trees, Lowering.agrees name, Compilation.agrees keepGoing name trees⟩

end Laye
