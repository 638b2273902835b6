import Laye.Proofs.Arrangement.Declarations
import Laye.Proofs.Passes.Resolver
import Laye.Proofs.Passes.Statement

/-!
# The walk over declarations

The bodies are checked one after another in one session. A function opens a scope and leaves it
open, whatever happens in it; after the function the scopes are cut back and the loops forgotten
(`Walk.function`). The walk counts the places of the declarations once more, and traps unless the
symbol at a place has the name and the kind of the declaration there. A function that gives no
result must have said why: a guard demands it (`Walk.decls`).

Between two declarations the session is in order (`Session.InOrder`): only the global scope is open,
no loop is left, the symbols of the declarations are where they were, and all types are in normal
form. From there a declaration passes or stops as its check does, without a trap, and the session is
in order again (`Walk.decl_cases`). -/

namespace Laye

open Step (report stop look change Runs)
open Session (during)

namespace Guarded

variable {S : Type} [Logs S]

/-- The library among a function's modifiers, given the one seen before them. -/
def libraryOf : List Modifier → Option String → Step S (Option String)
  | [], seen => pure seen
  | .convention _ _ :: modifiers, seen => libraryOf modifiers seen
  | .foreign library span :: modifiers, seen =>
    if seen.isSome then do
      report ⟨span, .duplicateForeignModifier⟩
      stop
    else libraryOf modifiers (some library)

/-- The symbol at the place of a declaration, which must be the one of the declaration. -/
def symbolOf (symbols : SymbolTable) (id : SymbolId) (decl : TopLevel) : Except Trap Symbol := do
  let symbol ← symbolAt symbols id
  if symbol.name = decl.name.name ∧ symbol.kind = Declarations.kind decl then .ok symbol
  else .error (.declaration id)

theorem runs_libraryOf (modifiers : List Modifier) (seen : Option String) :
    Runs (S := S) (libraryOf modifiers seen) (Declarations.libraryOf modifiers seen) := by
  induction modifiers generalizing seen with
  | nil => exact .pure _
  | cons modifier _ ih =>
    cases modifier with
    | convention _ _ => exact ih seen
    | foreign _ _ =>
      unfold libraryOf Declarations.libraryOf
      split
      · exact .refused _
      · exact ih _

theorem symbolOf_eq_ok {symbols : SymbolTable} {id : SymbolId} {decl : TopLevel} {symbol : Symbol}
    (h : symbols[id]? = some symbol) (hname : symbol.name = decl.name.name)
    (hkind : symbol.kind = Declarations.kind decl) : symbolOf symbols id decl = .ok symbol := by
  simp [symbolOf, symbolAt_eq_ok h, SymbolTable.symbolAt_eq h, hname, hkind, bind, Except.bind]

end Guarded

namespace Walk

/-- Declares the parameters of a function as variables. -/
def params : List (Param × Ty) → Walk (List SymbolId)
  | [] => pure []
  | (param, ty) :: rest => do
    let symbol ← declare param.name ty (.duplicateParameter param.name.name)
    let rest ← params rest
    pure (symbol :: rest)

/-- The body of a function that returns a type. -/
def body (returnType : Ty) : FunctionBody → Walk Typed.Body
  | .empty _ => pure .empty
  | .block stmts span => do
    let stmts ← inBlock (Stmt.walkBlock stmts)
    pure (.block stmts span)
  | .expression value => do
    let value ← within (Guarded.exprAt · returnType value)
    pure (.expression value)

/-- The parameters and the body of a function, in its scope. -/
def paramsAndBody (decl : FunctionDecl) (signature : Signature) :
    Walk (List SymbolId × Typed.Body) := do
  let params ← params (decl.params.zip signature.paramTypes)
  let body ← body signature.returnType decl.body
  pure (params, body)

/-- The signature of a function, whose symbol has the given id. -/
def signatureOf (id : SymbolId) (decl : FunctionDecl) : Walk Signature := do
  let symbol ← within fun ctx => look (Guarded.symbolAt ctx.symbols id)
  match symbol.signature? with
  | none => do
    report ⟨decl.name.span, .noFunctionType decl.name.name⟩
    stop
  | some signature => pure signature

/-- A function whose library and signature are known. -/
def functionOf (id : SymbolId) (f : FunctionDecl) (library : Option String)
    (parts : List SymbolId × Typed.Body) : Typed.Function :=
  ⟨id, f.name.name, f.name.span, parts.1, library, parts.2, f.span⟩

/-- The parts of a function, in a scope that is not closed here, whatever happens in it. -/
def functionParts (id : SymbolId) (decl : FunctionDecl) : Walk Typed.Function := do
  let library ← Guarded.libraryOf decl.modifiers none
  let signature ← signatureOf id decl
  openScope (some id)
  let parts ← paramsAndBody decl signature
  pure (functionOf id decl library parts)

/-- The session after a function: the scopes are cut back to a number of them, and no loop is
left. -/
def unwind (depth : Nat) (σ : Session) : Session :=
  { σ with scopes := σ.scopes.unwindTo depth, loopDepth := 0 }

/-- A function, whose symbol has the given id. -/
def function (id : SymbolId) (decl : FunctionDecl) : Walk Typed.Function := fun σ =>
  (functionParts id decl).thenAlways (fun σ' => .ok (unwind σ.scopes.depth σ')) σ

/-- A declaration, whose symbol has the given id. -/
def decl (id : SymbolId) (top : TopLevel) : Walk Typed.Decl := do
  let _ ← within fun ctx => look (Guarded.symbolOf ctx.symbols id top)
  match top with
  | .struct decl => pure (.struct id decl.span)
  | .enum decl => pure (.enum id decl.span)
  | .function decl => do
    let function ← function id decl
    pure (.function function)

/-- Declarations, whose symbols have the ids from `id` on. Those after one that is refused are only
walked over if the check is told to keep going. -/
def decls (keepGoing : Bool) (g : ErrorGuard) : SymbolId → List TopLevel → Walk (List Typed.Decl)
  | _, [] => pure []
  | id, first :: rest => fun σ => do
    let (first, σ) ← Step.demanding g "checking a function" (decl id first) σ
    if first.isSome || keepGoing then do
      let (rest, σ) ← decls keepGoing g (id + 1) rest σ
      .ok (first.bind fun first => rest.map (first :: ·), σ)
    else .ok (none, σ)

/-- All declarations of a unit. -/
def bodies (keepGoing : Bool) (tops : List TopLevel) : Walk (List Typed.Decl) := fun σ =>
  decls keepGoing (.start σ.diagnostics) 0 tops σ

end Walk

/-- The session in which the check of the bodies begins. -/
def Session.start (log : Log) (ctx : Context) : Session := ⟨log, ctx.symbols, ctx.scopes, 0⟩

/-! ### Functions -/

namespace Walk

section Parts

variable {signature : Signature} {table : SymbolTable}

theorem params_follows {given : List (Param × Ty)}
    (hgiven : ∀ param ∈ given, param.2.Normal table false) :
    Follows signature table 0 (params given) (Typing.params given) := by
  induction given with
  | nil => exact .pure _
  | cons param _ ih =>
    obtain ⟨hparam, hrest⟩ := List.forall_mem_cons.mp hgiven
    exact (Follows.declare param.1.name _ hparam).bind fun _ => (ih hrest).bind fun _ => .pure _

theorem body_follows (hreturn : signature.returnType.Normal table false) (b : FunctionBody) :
    Follows signature table 0 (body signature.returnType b)
      (Typing.body signature.returnType b) := by
  cases b with
  | empty _ => exact .pure _
  | block stmts _ => exact (Stmt.walkBlock_follows 0 stmts).inBlock.bind fun _ => .pure _
  | expression value =>
    exact .within_then (fun _ hctx hregular =>
      Guarded.runs_exprAt hctx.sound hregular hreturn value) fun _ => .pure _

theorem paramsAndBody_follows (hreturn : signature.returnType.Normal table false)
    (hparams : ∀ param ∈ signature.params, param.2.Normal table false) (f : FunctionDecl) :
    Follows signature table 0 (paramsAndBody f signature)
      (Typing.paramsAndBody f signature) := by
  have hgiven : ∀ param ∈ f.params.zip signature.paramTypes, param.2.Normal table false := by
    intro param hparam
    obtain ⟨field, hfield, heq⟩ := List.mem_map.mp (List.of_mem_zip hparam).2
    exact heq ▸ hparams field hfield
  exact (params_follows hgiven).bind fun _ => (body_follows hreturn f.body).bind fun _ => .pure _

end Parts

theorem unwindTo_depth {scopes scopes' : ScopeStack} (hinner : scopes.inner = [])
    (hglobals : scopes'.globals = scopes.globals) : scopes'.unwindTo scopes.depth = scopes := by
  -- one scope is to be left, which is the global one
  refine ScopeStack.ext ?_ hglobals
  simp [ScopeStack.unwindTo, ScopeStack.drop, ScopeStack.depth, hinner]

variable {σ : Session} {id : SymbolId} {f : FunctionDecl} {library : Option String}
  {signature : Signature}

section

variable (hlibrary : Declarations.libraryOf f.modifiers none = .ok library)
include hlibrary

theorem function_eq (hsignature : (σ.context.symbolAt id).signature? = some signature) :
    Typing.function id f ⟨σ.context, []⟩ =
      Typing.paramsAndBody f signature ⟨⟨σ.symbols, σ.scopes.push (some id)⟩, []⟩ >>= fun r =>
        .ok (functionOf id f library r.1, { r.2 with scopes := r.2.scopes.pop }) := by
  unfold Typing.function
  rw [hlibrary]
  change (match (σ.context.symbolAt id).signature? with
    | none => _
    | some _ => _ : Check _) _ = _
  rw [hsignature]
  change (Typing.paramsAndBody f signature ⟨⟨σ.symbols, σ.scopes.push (some id)⟩, []⟩ >>= _)
    >>= _ = _
  cases Typing.paramsAndBody f signature ⟨⟨σ.symbols, σ.scopes.push (some id)⟩, []⟩ <;> rfl

theorem functionParts_eq {symbol : Symbol} (hsymbol : σ.symbols[id]? = some symbol)
    (hsignature : symbol.signature? = some signature) :
    functionParts id f σ = Step.resume (fun parts => pure (functionOf id f library parts))
      (paramsAndBody f signature { σ with scopes := σ.scopes.push (some id) }) := by
  have hfirst := Guarded.runs_libraryOf f.modifiers none σ
  rw [hlibrary] at hfirst
  have hfound : signatureOf id f σ = .ok (some signature, σ) := by
    have hlook : within (fun ctx => look (Guarded.symbolAt ctx.symbols id)) σ =
        .ok (some symbol, σ) := by
      simp only [within, Session.context, Guarded.symbolAt_eq_ok hsymbol,
        SymbolTable.symbolAt_eq hsymbol, look]
    rw [signatureOf, Step.bind_some hlook, hsignature]
    rfl
  rw [functionParts, Step.bind_some hfirst, Step.bind_some hfound]
  rfl

end

/-- A function passes or stops as its check does. In both cases the scopes are those of before it,
no loop is left, symbols were only added, and their types are those of `table`. -/
theorem function_cases {table : SymbolTable} (hsound : σ.context.Sound)
    (hregular : σ.context.Regular table) (hfunction : Typing.IsFunction σ.symbols id f)
    (hinner : σ.scopes.inner = []) (hloop : σ.loopDepth = 0) :
    (∃ g s, Typing.function id f ⟨σ.context, []⟩ = .ok (g, s) ∧ s.scopes = σ.scopes ∧
      σ.symbols.Extends s.symbols ∧ s.toContext.Regular table ∧
      function id f σ = .ok (some g, during σ.toLog 0 s)) ∨
    ∃ refusal σ', Typing.function id f ⟨σ.context, []⟩ = .error refusal ∧
      function id f σ = .ok (none, σ') ∧
      σ'.toLog = ⟨σ.before, σ.findings ++ refusal.findings⟩ ∧ σ'.scopes = σ.scopes ∧
      σ'.loopDepth = 0 ∧ σ.symbols.Extends σ'.symbols ∧ σ'.context.Regular table := by
  obtain ⟨symbol, signature, hsymbol, -, hsignature, -⟩ := hfunction
  have hfound : (σ.context.symbolAt id).signature? = some signature := by
    rw [Context.symbolAt, Session.context, SymbolTable.symbolAt_eq hsymbol, hsignature]
  cases hlibrary : Declarations.libraryOf f.modifiers none with
  | error fault =>
    have hfirst := Guarded.runs_libraryOf f.modifiers none σ
    rw [hlibrary] at hfirst
    have hparts : functionParts id f σ = .ok (none, σ.report (.fault fault)) :=
      Step.bind_none hfirst _
    refine .inr ⟨⟨[], fault⟩, unwind σ.scopes.depth (σ.report (.fault fault)), ?_, ?_, rfl,
      unwindTo_depth hinner rfl, rfl, .refl _, hregular.extends_table, hregular.types⟩
    · unfold Typing.function
      rw [hlibrary]
      rfl
    · change Step.settle _ (functionParts id f σ) = _
      rw [hparts]
      rfl
  | ok library =>
    -- from here on there is a scope inside the global one, and `Follows` applies
    have hinside : Context.Inside signature ⟨σ.symbols, σ.scopes.push (some id)⟩ :=
      ⟨hsound.push _, by simp [ScopeStack.push], id, symbol, rfl, hsymbol, hsignature⟩
    obtain ⟨hreturn, hparams⟩ := hregular.signature (List.mem_of_getElem? hsymbol) hsignature
    have hopened := paramsAndBody_follows hreturn hparams f σ.toLog
      ⟨⟨σ.symbols, σ.scopes.push (some id)⟩, []⟩ hinside ⟨hregular.extends_table, hregular.types⟩
    have hsession : during σ.toLog 0 ⟨⟨σ.symbols, σ.scopes.push (some id)⟩, []⟩ =
        { σ with scopes := σ.scopes.push (some id) } := by
      rw [← hloop]
      simp [during]
    have hrun : function id f σ = Step.settle (fun σ' => .ok (unwind σ.scopes.depth σ'))
        (Step.resume (fun parts => pure (functionOf id f library parts)) (paramsAndBody f signature
          (during σ.toLog 0 ⟨⟨σ.symbols, σ.scopes.push (some id)⟩, []⟩))) := by
      rw [hsession, ← functionParts_eq hlibrary hsymbol hsignature]
      rfl
    rw [function_eq hlibrary hfound, hrun]
    generalize Typing.paramsAndBody f signature _ = x, paramsAndBody f signature _ = y at hopened
    cases hopened with
    | passed hgrows hinside' hregular' =>
      rename_i parts s'
      have hscopes : s'.scopes.pop = σ.scopes := hgrows.pop_push
      refine .inl ⟨functionOf id f library parts, { s' with scopes := s'.scopes.pop }, rfl,
        hscopes, hgrows.symbols, ⟨hregular'.extends_table, hregular'.types⟩, ?_⟩
      have hunwind : unwind σ.scopes.depth (during σ.toLog 0 s') =
          during σ.toLog 0 { s' with scopes := s'.scopes.pop } := by
        simp only [unwind, during, hscopes, unwindTo_depth hinner hgrows.globals]
      rw [← hunwind]
      rfl
    | stopped hstopped =>
      exact .inr ⟨_, unwind σ.scopes.depth _, rfl, rfl, hstopped.log_eq,
        unwindTo_depth hinner hstopped.globals_eq, rfl, hstopped.symbols,
        hstopped.regular.extends_table, hstopped.regular.types⟩

end Walk

/-! ### Declarations -/

/-- The session between two declarations: only the global scope is open, and it is untouched; no
loop is left; the symbols of the declarations are those of the start. -/
structure Session.AtRest (start : Context) (σ : Session) : Prop where
  inner_eq : start.scopes.inner = []
  scopes_eq : σ.scopes = start.scopes
  loopDepth_eq : σ.loopDepth = 0
  symbols : start.symbols.Extends σ.symbols

/-- The session between two declarations, with all types in normal form. -/
structure Session.InOrder (start : Context) (σ : Session) : Prop extends σ.AtRest start where
  regular : σ.context.Regular start.symbols

open Declarations (Starts)

variable {tops : List TopLevel} {start : Context} {σ : Session}

theorem Declarations.Starts.inner_eq (h : Starts tops start) : start.scopes.inner = [] :=
  (declare_eq_ok h.declare).1

theorem Session.inOrder_start (h : Starts tops start) (log : Log) :
    (Session.start log start).InOrder start :=
  ⟨⟨h.inner_eq, rfl, rfl, .refl _⟩, .refl _, Declarations.normal_symbols h.nodup h.populate⟩

namespace Session.InOrder

theorem sound (h : σ.InOrder start) (hstarts : Starts tops start) : σ.context.Sound := by
  have hstart : start.Sound := Declarations.sound_context hstarts.declare hstarts.populate
  have hscopes : σ.scopes = start.scopes := h.scopes_eq
  have hgrounded : σ.symbols.Grounded := fun symbol hsymbol =>
    h.regular.extends_table.isStruct_eq ▸ (h.regular.types symbol hsymbol).grounded
  rw [Session.context, hscopes]
  exact hstart.extend h.symbols hgrounded

theorem during_context (h : σ.InOrder start) : during σ.toLog 0 ⟨σ.context, []⟩ = σ := by
  obtain ⟨_, _, _, _⟩ := σ
  cases h.loopDepth_eq
  simp [during, Session.context]

end Session.InOrder

/-- A declaration passes or stops as its check does, and leaves the session in order. If it passes
it has reported what was found to be unreachable, and if it stops also the fault, and nothing
else. -/
theorem Walk.decl_cases (hstarts : Starts tops start) (h : σ.InOrder start) {id : SymbolId}
    {top : TopLevel} (htop : tops[id]? = some top) :
    (∃ d s, Typing.decl id top ⟨σ.context, []⟩ = .ok (d, s) ∧
      decl id top σ = .ok (some d, during σ.toLog 0 s) ∧ (during σ.toLog 0 s).InOrder start) ∨
    ∃ refusal σ', Typing.decl id top ⟨σ.context, []⟩ = .error refusal ∧
      decl id top σ = .ok (none, σ') ∧
      σ'.toLog = ⟨σ.before, σ.findings ++ refusal.findings⟩ ∧ σ'.InOrder start := by
  obtain ⟨symbol, hsymbol, his⟩ := Declarations.symbol_of_decl hstarts.populate htop
  -- what was added to the symbols since the start comes after those of the declarations
  have hplace : within (fun ctx => look (Guarded.symbolOf ctx.symbols id top)) σ =
      .ok (some symbol, σ) := by
    simp only [within, Session.context,
      Guarded.symbolOf_eq_ok (h.symbols.getElem? hsymbol) his.name_eq his.kind_eq, look]
  unfold decl
  rw [Step.bind_some hplace]
  cases top with
  | struct decl | enum _ =>
    refine .inl ⟨_, ⟨σ.context, []⟩, rfl, ?_, ?_⟩
    · rw [h.during_context]
      rfl
    · rw [h.during_context]
      exact h
  | function f =>
    have hfunction : Typing.IsFunction σ.symbols id f :=
      (Declarations.isFunction_of_populate hstarts.populate id f htop).mono h.symbols
    have hinner : σ.scopes.inner = [] := by rw [h.scopes_eq, h.inner_eq]
    have hdecl : Typing.decl id (.function f) ⟨σ.context, []⟩ =
        Typing.function id f ⟨σ.context, []⟩ >>= fun r => .ok (.function r.1, r.2) := rfl
    rcases function_cases (h.sound hstarts) h.regular hfunction hinner h.loopDepth_eq with
      ⟨g, s, hcheck, hscopes, hsymbols, hregular, hwalk⟩ |
      ⟨refusal, σ', hcheck, hwalk, hlog, hscopes, hloop, hsymbols, hregular⟩
    · rw [hdecl, hcheck]
      exact .inl ⟨.function g, s, rfl, Step.bind_some hwalk _,
        ⟨h.inner_eq, hscopes.trans h.scopes_eq, rfl, h.symbols.trans hsymbols⟩, hregular⟩
    · rw [hdecl, hcheck]
      exact .inr ⟨refusal, σ', rfl, Step.bind_none hwalk _, hlog,
        ⟨h.inner_eq, hscopes.trans h.scopes_eq, hloop, h.symbols.trans hsymbols⟩, hregular⟩

end Laye
