import Laye.Proofs.Arrangement.Unit
import Laye.Proofs.Passes.Declarations
import Laye.Syntax.Plain

/-!
# Functions are checked independently

What a declaration reports (`Typing.reports`) depends on the declaration and on the context in which
the check of the bodies starts, but not on what was checked before it: earlier functions only leave
variables behind, which change ids and nothing else (`Context.Reaches.reports_eq`). That context
depends on the headers of the functions alone (`Declarations.Starts.of_header`). So a check that
keeps going finds what the declarations report one by one, and one that does not finds the beginning
of that.

The walk over the bodies keeps one session, in which a refused function leaves its variables behind.
It still comes to the same program and the same findings, and satisfies its guard
(`Walk.decls_run`). `checkProgram_independent` puts this together. -/

namespace Laye

open Declarations (Starts ofTrees)
open Session (during)

/-! ### Headers -/

variable (tops : List TopLevel)

/-- The declared function without its body. -/
def FunctionDecl.header (decl : FunctionDecl) : FunctionDecl :=
  { decl with body := .empty .nowhere }

/-- The declaration without the body of a function: all that other declarations see of it. -/
def TopLevel.header : TopLevel → TopLevel
  | .function decl => .function decl.header
  | .struct decl => .struct decl
  | .enum decl => .enum decl

namespace Declarations

variable {tops tops' : List TopLevel}

theorem declareFrom_header (next : SymbolId) (rest : List TopLevel) (scopes : ScopeStack) :
    declareFrom next (rest.map TopLevel.header) scopes = declareFrom next rest scopes := by
  induction rest generalizing next scopes with
  | nil => rfl
  | cons top _ ih =>
    have hname : top.header.name = top.name := by cases top <;> rfl
    simp only [List.map_cons, declareFrom, hname, ih]

theorem find?_header (name : String) :
    find? (tops.map TopLevel.header) name = (find? tops name).map TopLevel.header := by
  have hname : ((·.name.name == name) : TopLevel → Bool) ∘ TopLevel.header =
      (·.name.name == name) := by
    funext top
    cases top <;> rfl
  rw [find?, find?, List.find?_map, hname]

theorem isStruct_header : isStruct (tops.map TopLevel.header) = isStruct tops := by
  funext name
  rw [isStruct, isStruct, find?_header]
  cases find? tops name with
  | none => rfl
  | some top => cases top <;> rfl

theorem named_header (free : Nat) (path : List String) :
    named (tops.map TopLevel.header) free path = named tops free path := by
  induction free generalizing path with
  | zero =>
    funext ident
    unfold named
    rw [find?_header]
    cases find? tops ident.name with
    | none => rfl
    | some top => cases top <;> rfl
  | succ _ ih =>
    funext ident
    unfold named
    rw [find?_header]
    cases find? tops ident.name with
    | none => rfl
    | some top =>
      -- only structs are looked into further, and they have no body
      cases top with
      | struct _ => simp only [Option.map_some, TopLevel.header, ih, isStruct_header]
      | _ => rfl

theorem typeOf_header (top : TopLevel) :
    typeOf (tops.map TopLevel.header) top.header = typeOf tops top := by
  have hnames : ∀ path, namesInside (tops.map TopLevel.header) path = namesInside tops path := by
    intro path
    rw [namesInside, namesInside, isStruct_header, named_header, List.length_map]
  cases top with
  | function _ =>
    simp only [typeOf, TopLevel.header, hnames]
    rfl
  | struct _ => simp only [typeOf, TopLevel.header, hnames]
  | enum _ => rfl

theorem symbolsOf_header (rest : List TopLevel) :
    symbolsOf (tops.map TopLevel.header) (rest.map TopLevel.header) = symbolsOf tops rest := by
  induction rest with
  | nil => rfl
  | cons top _ ih =>
    have hname : top.header.name = top.name := by cases top <;> rfl
    have hkind : kind top.header = kind top := by cases top <;> rfl
    simp only [List.map_cons, symbolsOf, typeOf_header, ih, hname, hkind]

theorem Starts.of_header {start : Context} (h : Starts tops start)
    (hheader : tops'.map TopLevel.header = tops.map TopLevel.header) : Starts tops' start := by
  constructor
  · rw [Declarations.declare, ← declareFrom_header, hheader, declareFrom_header]
    exact h.declare
  · rw [Declarations.populate, ← symbolsOf_header, hheader, symbolsOf_header]
    exact h.populate

end Declarations

/-! ### Reports -/

namespace Typing

/-- All that is reported about a declaration that is checked in the context. -/
def reports (ctx : Context) (id : SymbolId) (top : TopLevel) : List Finding :=
  match decl id top ⟨ctx, []⟩ with
  | .ok (_, after) => after.unreachable.map .unreachable
  | .error refusal => refusal.findings

theorem alike_decl_stay {ρ : SymbolId → SymbolId → Prop} (hρ : PairsOff ρ) {id id' : SymbolId}
    (hid : ρ id id') (top : TopLevel) :
    Check.Alike .stay ρ (Typed.Decl.Alike .stay ρ) (decl id top) (decl id' top) := by
  cases top with
  | struct _ => exact .pure (.struct _ hid)
  | enum _ => exact .pure (.enum _ hid)
  | function decl =>
    have hfunction := alike_function (g := .stay) hρ hid decl
    rw [FunctionDecl.respan_stay] at hfunction
    exact hfunction.bind fun _ _ h => .pure (.function h)

end Typing

theorem Refusal.respan_stay (refusal : Refusal) : Located.respan .stay refusal = refusal :=
  congrArg (Refusal.mk · refusal.fault) (List.map_id _)

/-- The ids below `n` stay, and the others make room for `k` more symbols. -/
def makeRoom (n k id : Nat) : Nat := if id < n then id else id + k

theorem makeRoom_of_lt {n id : Nat} (k : Nat) (h : id < n) : makeRoom n k id = id := if_pos h

theorem makeRoom_add (n k j : Nat) : makeRoom n k (n + j) = n + k + j := by
  unfold makeRoom
  split <;> omega

theorem makeRoom_injective {n k a b : Nat} (h : makeRoom n k a = makeRoom n k b) : a = b := by
  unfold makeRoom at h
  split at h <;> split at h <;> omega

theorem makeRoom_pairsOff (n k : Nat) : PairsOff fun id id' => id' = makeRoom n k id := by
  rintro a _ b _ rfl rfl
  exact ⟨congrArg _, makeRoom_injective⟩

namespace Context.Reaches

variable {tops : List TopLevel} {start ctx : Context}

theorem of_starts (h : Starts tops start) : start.Reaches start :=
  ⟨rfl, .refl _, Declarations.sound_context h.declare h.populate⟩

section

variable (hstarts : Starts tops start) (h : start.Reaches ctx)
include hstarts h

/-- Names stand for the same symbols as at the start: the variables left behind stand between the
declarations, whose ids stay, and the next symbols. -/
theorem alike : ∃ k, start.Alike (fun id id' => id' = makeRoom tops.length k id) ctx := by
  obtain ⟨added, hadded, -⟩ := h.symbols
  have hlength : tops.length = start.symbols.length :=
    (Declarations.populate_eq_ok hstarts.populate).length_eq
  have hlength' : ctx.symbols.length = start.symbols.length + added.length := by
    rw [hadded, List.length_append]
  obtain ⟨hinner, -, hglobals⟩ := Declarations.declare_eq_ok hstarts.declare
  refine ⟨added.length, ⟨?_, fun k => ?_⟩, ?_, ⟨fun name => ?_, ?_⟩⟩
  · rintro id _ rfl
    by_cases hid : id < tops.length
    · rw [makeRoom_of_lt _ hid, hadded, SymbolTable.symbolAt, SymbolTable.symbolAt,
        List.getD_eq_getElem?_getD, List.getD_eq_getElem?_getD,
        List.getElem?_append_left (hlength ▸ hid)]
      exact ⟨rfl, rfl, rfl⟩
    · -- beyond both tables
      obtain ⟨k, rfl⟩ := Nat.exists_eq_add_of_le (Nat.le_of_not_lt hid)
      rw [makeRoom_add, hlength, ← hlength', SymbolTable.symbolAt_add, SymbolTable.symbolAt_add]
      exact ⟨rfl, rfl, rfl⟩
  · rw [hlength, makeRoom_add, hlength']
  · rw [h.scopes_eq, hinner]
    exact .nil
  · rw [h.scopes_eq, hglobals]
    cases hfind : tops.findIdx? (·.name.name == name) with
    | none => exact .none
    | some _ =>
      obtain ⟨hlt, -⟩ := List.findIdx?_eq_some_iff_getElem.mp hfind
      exact .some (makeRoom_of_lt _ hlt).symm
  · rw [h.scopes_eq, hstarts.function_eq]
    exact .none

theorem reports_eq {id : SymbolId} (hid : id < tops.length) (top : TopLevel) :
    Typing.reports ctx id top = Typing.reports start id top := by
  obtain ⟨k, halike⟩ := h.alike hstarts
  have hsame := Typing.alike_decl_stay (makeRoom_pairsOff _ _) (makeRoom_of_lt k hid).symm top
    ⟨start, []⟩ ⟨ctx, []⟩ ⟨halike, rfl⟩
  unfold Typing.reports
  cases hstart : Typing.decl id top ⟨start, []⟩ with
  | error refusal =>
    rw [hstart] at hsame
    cases hctx : Typing.decl id top ⟨ctx, []⟩ with
    | error _ =>
      rw [hctx] at hsame
      exact congrArg Refusal.findings (hsame.trans refusal.respan_stay)
    | ok _ =>
      rw [hctx] at hsame
      exact hsame.elim
  | ok r =>
    obtain ⟨_, hctx, -, hr⟩ := hsame.exists_right hstart
    rw [hctx]
    exact congrArg (List.map Finding.unreachable) (hr.unreachable_eq.trans (List.map_id _))

end

end Context.Reaches

/-! ### Declarations one after another -/

namespace Typing

variable {tops rest : List TopLevel} {start ctx : Context} {id : SymbolId}

/-- All that declarations report, one by one, when their ids go on from the given one. -/
def allReports (start : Context) (id : SymbolId) (rest : List TopLevel) : List Finding :=
  (rest.zipIdx id).flatMap fun (top, id) => reports start id top

theorem allReports_cons (start : Context) (id : SymbolId) (first : TopLevel)
    (rest : List TopLevel) :
    allReports start id (first :: rest) =
      reports start id first ++ allReports start (id + 1) rest :=
  rfl

theorem places_of_cons {first : TopLevel} (h : first :: rest <+: tops.drop id) :
    tops[id]? = some first ∧ rest <+: tops.drop (id + 1) := by
  obtain ⟨more, hmore⟩ := h
  obtain ⟨hfirst, hrest⟩ := Declarations.place_of_drop hmore.symm
  exact ⟨hfirst, more, hrest.symm⟩

theorem decls_reports (hstarts : Starts tops start) (hctx : start.Reaches ctx)
    (hrest : rest <+: tops.drop id) :
    (decls true id ctx rest).1 = allReports start id rest := by
  induction rest generalizing id ctx with
  | nil => rfl
  | cons first _ ih =>
    obtain ⟨htop, hrest'⟩ := places_of_cons hrest
    have hfirst := hctx.reports_eq hstarts (List.getElem?_eq_some_iff.mp htop).1 first
    rw [allReports_cons, ← hfirst]
    unfold decls reports
    cases hdecl : decl id first ⟨ctx, []⟩ with
    | error _ =>
      -- the context stays what it was, and the check goes on
      simp only [if_true, ih hctx hrest']
    | ok r => simp only [ih (hctx.decl hstarts htop hdecl).1 hrest']

/-- Both modes accept the same declarations. If the check does not keep going it finds the beginning
of what it finds if it does, and all of it if it accepts. -/
theorem decls_modes (id : SymbolId) (ctx : Context) (rest : List TopLevel) :
    (decls false id ctx rest).2 = (decls true id ctx rest).2 ∧
    (decls false id ctx rest).1 <+: (decls true id ctx rest).1 ∧
    ((decls true id ctx rest).2.isSome = true →
      (decls false id ctx rest).1 = (decls true id ctx rest).1) := by
  induction rest generalizing id ctx with
  | nil => exact ⟨rfl, List.prefix_rfl, fun _ => rfl⟩
  | cons first _ ih =>
    unfold decls
    cases decl id first ⟨ctx, []⟩ with
    | error _ =>
      -- here the modes part, and neither gives a result
      refine ⟨rfl, ?_, fun h => by cases h⟩
      simp
    | ok r =>
      obtain ⟨d, s⟩ := r
      obtain ⟨hresult, hprefix, hfindings⟩ := ih (id + 1) s.toContext
      refine ⟨by simp only [hresult], ?_, fun h => ?_⟩
      · exact (List.prefix_append_right_inj _).mpr hprefix
      · rw [Option.isSome_map] at h
        simp only [hfindings h]

end Typing

theorem Refusal.countP_findings (refusal : Refusal) :
    refusal.findings.countP Finding.isFault = 1 := by
  simp [Refusal.findings, Finding.isFault, List.countP_append, List.countP_map, Function.comp_def]

theorem Session.InOrder.reaches {tops : List TopLevel} {start : Context} {σ : Session}
    (h : σ.InOrder start) (hstarts : Starts tops start) : start.Reaches σ.context :=
  ⟨h.scopes_eq, h.symbols, h.sound hstarts⟩

/-- The walk over declarations comes to what their check comes to, with the same findings, and the
guard is satisfied. It does not trap. -/
theorem Walk.decls_run {tops rest : List TopLevel} {start : Context} {σ : Session} {id : SymbolId}
    (hstarts : Starts tops start) (h : σ.InOrder start) {g : ErrorGuard}
    (hg : g.baseline ≤ Diagnostic.errorCount σ.diagnostics) (keepGoing : Bool)
    (hrest : rest <+: tops.drop id) :
    ∃ result σ', decls keepGoing g id rest σ = .ok (result, σ') ∧ σ'.InOrder start ∧
      σ'.toLog = ⟨σ.before, σ.findings ++ (Typing.decls keepGoing id σ.context rest).1⟩ ∧
      result.map (fun checked => (checked, σ'.context)) =
        (Typing.decls keepGoing id σ.context rest).2 := by
  induction rest generalizing id σ with
  | nil => exact ⟨some [], σ, rfl, h, by simp [Typing.decls], rfl⟩
  | cons _ rest ih =>
    obtain ⟨htop, hrest'⟩ := Typing.places_of_cons hrest
    unfold decls Typing.decls
    rcases decl_cases hstarts h htop with ⟨d, s, hcheck, hwalk, horder⟩ |
      ⟨refusal, σ1, hcheck, hwalk, hlog, horder⟩
    · have hg1 : g.baseline ≤ Diagnostic.errorCount (during σ.toLog 0 s).diagnostics := by
        refine Nat.le_trans hg ?_
        exact σ.errorCount_extended _ ▸ Nat.le_add_right _ _
      obtain ⟨result, σ', hrun, horder', hlog, hresult⟩ := ih horder hg1 hrest'
      rw [hcheck, Step.demanding_some hwalk]
      refine ⟨result.map (d :: ·), σ', ?_, horder', ?_, ?_⟩
      · change (decls keepGoing g (id + 1) rest _ >>=
          fun r => Except.ok (r.1.map (d :: ·), r.2)) = _
        rw [hrun]
        rfl
      · rw [hlog, ← List.append_assoc]
        rfl
      · have hcontext : (during σ.toLog 0 s).context = s.toContext := rfl
        rw [hcontext] at hresult
        simp only [← hresult, Option.map_map]
        rfl
    · -- a refusal is one error more than the guard knows
      have hnew : g.baseline < Diagnostic.errorCount σ1.diagnostics := by
        rw [hlog, σ.errorCount_extended, refusal.countP_findings]
        omega
      rw [hcheck, Step.demanding_none hwalk hnew]
      cases keepGoing with
      | false => exact ⟨none, σ1, rfl, horder, by simpa using hlog, rfl⟩
      | true =>
        obtain ⟨_, σ', hrun, horder', hlog', -⟩ := ih horder (Nat.le_of_lt hnew) hrest'
        refine ⟨none, σ', ?_, horder', ?_, rfl⟩
        · change (decls true g (id + 1) rest _ >>= fun r => Except.ok (none, r.2)) = _
          rw [hrun]
          rfl
        · -- the session has more symbols than the check, but both report the same
          rw [hlog', hlog, Typing.decls_reports hstarts (horder.reaches hstarts) hrest']
          simp only [if_true, List.append_assoc,
            Typing.decls_reports hstarts (h.reaches hstarts) hrest']

/-- The walk over the first declarations of a unit, from its start. -/
theorem Walk.bodies_run {tops checked : List TopLevel} {start : Context}
    (hstarts : Starts tops start) (log : Log) (keepGoing : Bool) (hchecked : checked <+: tops) :
    ∃ result σ, bodies keepGoing checked (.start log start) = .ok (result, σ) ∧ σ.InOrder start ∧
      σ.toLog = ⟨log.before, log.findings ++ (Typing.decls keepGoing 0 start checked).1⟩ ∧
      result.map (fun decls => (decls, σ.context)) = (Typing.decls keepGoing 0 start checked).2 :=
  decls_run hstarts (Session.inOrder_start hstarts log) (Nat.le_refl _) keepGoing hchecked

/-! ### Units -/

/-- The functions of a unit are checked independently, in the context that its declarations
leave. -/
structure Independent (trees : List SyntaxTree) (start : Context) : Prop where
  /-- A check that keeps going finds what the declarations report, one after another. With other
  bodies the context is the same, and so is what the declarations report that keep theirs. -/
  findings_eq : ∀ trees',
    (ofTrees trees').map TopLevel.header =
      (ofTrees trees).map TopLevel.header →
    Starts (ofTrees trees') start ∧
    (checkProgram true trees').findings = (ofTrees trees').zipIdx.flatMap
      fun (top, id) => Typing.reports start id top
  /-- A check that does not keep going finds the beginning of that. -/
  findings_prefix : (checkProgram false trees).findings <+: (checkProgram true trees).findings
  /-- Both accept the same units and give the same program. -/
  program_eq : (checkProgram false trees).program = (checkProgram true trees).program
  /-- About an accepted unit both find the same. -/
  accepted : (checkProgram true trees).program.isSome = true →
    (checkProgram false trees).findings = (checkProgram true trees).findings
  /-- The session of the checker comes to the same findings and the same program. -/
  session : ∀ keepGoing before, ∃ checked σ,
    Walk.bodies keepGoing (ofTrees trees) (.start ⟨before, []⟩ start) =
      .ok (checked, σ) ∧
    σ.findings = (checkProgram keepGoing trees).findings ∧
    (checkProgram keepGoing trees).program =
      checked.map fun decls => ⟨Typing.roots trees decls, σ.symbols⟩
  /-- After any number of declarations, the last one refused or not, the session is at rest. -/
  atRest : ∀ keepGoing before tops, tops <+: ofTrees trees → ∃ checked σ,
    Walk.bodies keepGoing tops (.start ⟨before, []⟩ start) = .ok (checked, σ) ∧ σ.AtRest start
  /-- If it keeps going, then while it is at a declaration it gains what the declaration reports. -/
  gains : ∀ before tops top, tops ++ [top] <+: ofTrees trees →
    ∃ checked σ checked' σ', Walk.bodies true tops (.start ⟨before, []⟩ start) = .ok (checked, σ) ∧
      Walk.bodies true (tops ++ [top]) (.start ⟨before, []⟩ start) = .ok (checked', σ') ∧
      σ'.findings = σ.findings ++ Typing.reports start tops.length top

theorem checkProgram_eq {trees : List SyntaxTree} {start : Context}
    (h : Starts (ofTrees trees) start) (keepGoing : Bool) :
    checkProgram keepGoing trees =
      ⟨(Typing.decls keepGoing 0 start (ofTrees trees)).1,
        (Typing.decls keepGoing 0 start (ofTrees trees)).2.map fun (decls, ctx) =>
          ⟨Typing.roots trees decls, ctx.symbols⟩⟩ := by
  simp only [checkProgram, h.declare, h.populate]

/-- In every unit that gets past its declarations, the functions are checked independently. -/
theorem checkProgram_independent {trees : List SyntaxTree} {start : Context}
    (h : Starts (ofTrees trees) start) : Independent trees start := by
  obtain ⟨hresult, hprefix, hfindings⟩ :=
    Typing.decls_modes 0 start (ofTrees trees)
  have hreports : ∀ {tops checked}, Starts tops start → checked <+: tops →
      (Typing.decls true 0 start checked).1 = Typing.allReports start 0 checked :=
    fun hstarts hchecked => Typing.decls_reports hstarts (.of_starts hstarts) hchecked
  constructor
  case findings_eq =>
    intro trees' hheader
    have h' := h.of_header hheader
    refine ⟨h', ?_⟩
    rw [checkProgram_eq h', hreports h' List.prefix_rfl]
    rfl
  case findings_prefix =>
    rw [checkProgram_eq h, checkProgram_eq h]
    exact hprefix
  case program_eq =>
    rw [checkProgram_eq h, checkProgram_eq h, hresult]
  case accepted =>
    intro haccepted
    rw [checkProgram_eq h, Option.isSome_map] at haccepted
    rw [checkProgram_eq h, checkProgram_eq h]
    exact hfindings haccepted
  case session =>
    intro keepGoing before
    obtain ⟨checked, σ, hrun, -, hlog, hchecked⟩ :=
      Walk.bodies_run h ⟨before, []⟩ keepGoing List.prefix_rfl
    refine ⟨checked, σ, hrun, ?_, ?_⟩
    · rw [checkProgram_eq h, hlog]
      rfl
    · rw [checkProgram_eq h, ← hchecked, Option.map_map]
      rfl
  case atRest =>
    intro keepGoing before tops htops
    obtain ⟨checked, σ, hrun, horder, -⟩ := Walk.bodies_run h ⟨before, []⟩ keepGoing htops
    exact ⟨checked, σ, hrun, horder.toAtRest⟩
  case gains =>
    intro before tops top htops
    have hbefore := (List.prefix_append tops [top]).trans htops
    obtain ⟨checked, σ, hrun, -, hlog, -⟩ := Walk.bodies_run h ⟨before, []⟩ true hbefore
    obtain ⟨checked', σ', hrun', -, hlog', -⟩ := Walk.bodies_run h ⟨before, []⟩ true htops
    refine ⟨checked, σ, checked', σ', hrun, hrun', ?_⟩
    rw [hlog, hlog', hreports h hbefore, hreports h htops, Typing.allReports, Typing.allReports,
      List.zipIdx_append, List.flatMap_append]
    simp

open Plain in
/-- A file whose first function is refused in a block in a loop, and whose second one is no longer
in that loop: `void f() { while (true) { { var n = 1; m; } } }`, `void g() { break; }` and
`void h() { return; h(); }`. -/
def SyntaxTree.tangle : SyntaxTree :=
  let inner : List Stmt := [
    .binding none (ident "n") (some (number 1)) .nowhere,
    .expression (name "m")]
  { sourceName := "tangle"
    decls := [
      function (keyword "void") "f" [] [.whileLoop (.bool true .nowhere)
        (.block [.block inner .nowhere] .nowhere) none .nowhere],
      function (keyword "void") "g" [] [.breakLoop .nowhere],
      function (keyword "void") "h" [] [.ret none .nowhere,
        .expression (.invoke (name "h") [] .nowhere)]] }

theorem checkProgram_independent_tangle :
    ∃ start, Starts (ofTrees [.tangle]) start ∧ Independent [.tangle] start ∧
      (checkProgram true [.tangle]).findings.map Finding.isFault = [true, true, false] ∧
      (checkProgram false [.tangle]).findings.map Finding.isFault = [true] := by
  have hdeclare : (Declarations.declare SyntaxTree.tangle.decls).isOk = true := by decide +kernel
  have hpopulate : (Declarations.populate SyntaxTree.tangle.decls).isOk = true := by
    decide +kernel
  cases hscopes : Declarations.declare SyntaxTree.tangle.decls with
  | error _ =>
    rw [hscopes] at hdeclare
    cases hdeclare
  | ok scopes =>
    cases hsymbols : Declarations.populate SyntaxTree.tangle.decls with
    | error _ =>
      rw [hsymbols] at hpopulate
      cases hpopulate
    | ok symbols =>
      have hstarts : Starts (ofTrees [.tangle]) ⟨symbols, scopes⟩ :=
        ⟨hscopes, hsymbols⟩
      exact ⟨_, hstarts, checkProgram_independent hstarts, by decide +kernel,
        by decide +kernel⟩

end Laye
