import Laye.Proofs.Typing.Canonical
import Laye.Proofs.Typing.Soundness

/-!
# Variables are declared before they are read

`Typed.Stmt.WellScoped` says of a statement that it reads a variable only where the variable has
been declared, and that what stands after a statement that always exits is dead code. The first
follows from how the checker looks names up: the names of its inner scopes are those of the
variables declared so far (`Context.locals`), and no global name is that of a variable
(`Context.NoGlobalVariables`). `accepted_wellScoped` says it of the functions of an accepted
program.

On the way the types of variables, like those of declarations, hold each struct as its name stands
for it (`Context.Tidy`).
-/

namespace Laye

open SymbolTable (symbolAt_eq)

/-! ### Scoped trees -/

namespace Typed

namespace Stmt

/-- The variable that the statement declares for those after it. -/
def declared : Stmt → List SymbolId
  | .binding symbol _ _ => [symbol]
  | _ => []

/-- Whether the statement can never run. -/
def isDead : Stmt → Bool
  | .deadCode _ _ => true
  | _ => false

mutual

/-- With the variables in `known` declared, the statement reads only what is declared, unless it is
dead. -/
def WellScoped (symbols : SymbolTable) (known : List SymbolId) : Stmt → Prop
  | .block stmts _ => WellScopedAll symbols known stmts
  | .binding _ value _ | .ret value _ | .yield value _ => ∀ e ∈ value, e.Reads symbols known
  | .expression value => value.Reads symbols known
  | .assign target value _ => target.Reads symbols known ∧ value.Reads symbols known
  | .conditional condition body none _ | .whileLoop condition body none _ =>
    condition.Reads symbols known ∧ body.WellScoped symbols known
  | .conditional condition body (some elseBody) _ | .whileLoop condition body (some elseBody) _ =>
    condition.Reads symbols known ∧ body.WellScoped symbols known ∧
      elseBody.WellScoped symbols known
  | .breakLoop _ | .continueLoop _ | .deadCode _ _ => True

/-- The same for statements one after another, of which only dead ones follow one that always
exits. -/
def WellScopedAll (symbols : SymbolTable) (known : List SymbolId) : List Stmt → Prop
  | [] => True
  | stmt :: rest => stmt.WellScoped symbols known ∧
      WellScopedAll symbols (stmt.declared ++ known) rest ∧
      (stmt.alwaysExits = true → ∀ later ∈ rest, later.isDead = true)

end

variable {symbols : SymbolTable} {known : List SymbolId}

theorem WellScopedAll.nil : WellScopedAll symbols known [] := by
  trivial

theorem wellScopedAll_cons {stmt : Stmt} {rest : List Stmt} :
    WellScopedAll symbols known (stmt :: rest) ↔
      stmt.WellScoped symbols known ∧ WellScopedAll symbols (stmt.declared ++ known) rest ∧
        (stmt.alwaysExits = true → ∀ later ∈ rest, later.isDead = true) := by
  rw [WellScopedAll]

end Stmt

/-- With the variables in `known` declared, the body reads only what is declared. -/
def Body.WellScoped (symbols : SymbolTable) (known : List SymbolId) : Body → Prop
  | .empty => True
  | .block stmts _ => Stmt.WellScopedAll symbols known stmts
  | .expression value => value.Reads symbols known

end Typed

/-! ### Contexts -/

namespace Context

variable {ctx ctx' : Context} {signature : Signature}

/-- The symbols that the names of the inner scopes stand for. -/
def locals (ctx : Context) : List SymbolId :=
  ctx.scopes.inner.flatMap fun scope => scope.names.map Prod.snd

/-- No global name stands for a variable. -/
def NoGlobalVariables (ctx : Context) : Prop :=
  ∀ name id, ctx.scopes.lookupGlobal name = some id → (ctx.symbolAt id).kind ≠ .binding

theorem mem_locals_of_find? {scope : Scope} (hscope : scope ∈ ctx.scopes.inner) {name : String}
    {id : SymbolId} (h : scope.find? name = some id) : id ∈ ctx.locals := by
  obtain ⟨_, _, hnames, -⟩ := List.lookup_eq_some_iff.mp h
  refine List.mem_flatMap.mpr ⟨scope, hscope, List.mem_map.mpr ⟨(name, id), ?_, rfl⟩⟩
  simp [hnames]

theorem MayLoad.mem_locals {id : SymbolId} (h : ctx.MayLoad id) (hglobals : ctx.NoGlobalVariables) :
    id ∈ ctx.locals ∨ (ctx.symbolAt id).kind = .function := by
  obtain ⟨⟨name, hname⟩, hkind⟩ := h
  rw [ScopeStack.lookup_eq] at hname
  rcases Option.or_eq_some_iff.mp hname with hfound | ⟨-, hfound⟩
  · obtain ⟨_, hscope, hfind⟩ := List.exists_of_findSome?_eq_some hfound
    exact .inl (mem_locals_of_find? hscope hfind)
  · refine .inr ?_
    have hbinding := hglobals name id hfound
    cases hk : (ctx.symbolAt id).kind with
    | binding => exact absurd hk hbinding
    | function => rfl
    | _ => simp [hk, SymbolKind.isType] at hkind

theorem Grows.noGlobalVariables (h : ctx.Grows ctx') (hctx : ctx.Sound)
    (hglobals : ctx.NoGlobalVariables) : ctx'.NoGlobalVariables := by
  intro name id hid
  rw [ScopeStack.lookupGlobal, h.globals] at hid
  obtain ⟨_, hsymbol, -⟩ := hctx.global name id hid
  have hkind := hglobals name id hid
  rw [symbolAt, symbolAt_eq hsymbol] at hkind
  rw [symbolAt, symbolAt_eq (h.symbols.getElem? hsymbol)]
  exact hkind

/-- No global name stands for a variable, and every struct in the type of a symbol is the one that
its name stands for. -/
structure Tidy (ctx : Context) : Prop where
  globals : ctx.NoGlobalVariables
  canonical : ctx.symbols.Canonical

theorem Grows.tidy (h : ctx.Grows ctx') (hctx : ctx.Sound) (htidy : ctx.Tidy)
    (hcanonical : ctx'.symbols.Canonical) : ctx'.Tidy :=
  ⟨h.noGlobalVariables hctx htidy.globals, hcanonical⟩

theorem Tidy.push {symbols : SymbolTable} {scopes : ScopeStack} {function : Option SymbolId}
    (h : Tidy ⟨symbols, scopes⟩) : Tidy ⟨symbols, scopes.push function⟩ :=
  ⟨h.globals, h.canonical⟩

theorem Tidy.supplies (h : ctx.Tidy) (hctx : ctx.Sound) :
    ctx.Supplies (Ty.Canonical ctx.symbols.structType?) := by
  refine ⟨Ty.closed_canonical _, fun name id signature hcallee ty hty => ?_⟩
  unfold callee? at hcallee
  split at hcallee
  · cases hcallee
  · rename_i id' hid
    obtain ⟨_, hsymbol, -⟩ := hctx.global name id' hid
    rw [symbolAt, symbolAt_eq hsymbol] at hcallee
    obtain ⟨_, hsignature, ⟨⟩⟩ := Option.map_eq_some_iff.mp hcallee
    obtain ⟨param, hparam, rfl⟩ := List.mem_map.mp hty
    exact (h.canonical.signature (List.mem_of_getElem? hsymbol) hsignature).2 param hparam

theorem Tidy.typeNames (h : ctx.Tidy) (hctx : ctx.Sound) :
    ctx.typeNames.Gives (Ty.Canonical ctx.symbols.structType?) := by
  refine ⟨fun name _ => .structRef name, fun ident ty hty => ?_⟩
  obtain ⟨symbol, hmem, rfl⟩ := hctx.mem_of_resolve hty
  exact h.canonical symbol hmem

theorem locals_congr (h : ctx'.scopes = ctx.scopes) : ctx'.locals = ctx.locals := by
  rw [locals, locals, h]

@[simp] theorem locals_push (symbols : SymbolTable) (scopes : ScopeStack)
    (function : Option SymbolId) :
    locals ⟨symbols, scopes.push function⟩ = locals ⟨symbols, scopes⟩ := by
  simp [locals, ScopeStack.push, Scope.empty]

end Context

/-! ### Expressions in statements -/

namespace Typing

variable {ctx : Context} {e : Expr} {t : Typed.Expr}

theorem reads_of_uses (htidy : ctx.Tidy)
    (h : t.Uses ctx.MayLoad (Ty.Canonical ctx.symbols.structType?)) :
    t.Reads ctx.symbols ctx.locals :=
  Typed.Expr.Uses.imp (fun _ hid => hid.mem_locals htidy.globals) (fun _ hty => hty) t h

theorem exprAt_reads (hctx : ctx.Sound) (htidy : ctx.Tidy) {ty : Ty}
    (hty : ty.Canonical ctx.symbols.structType?) (h : exprAt ctx ty e = .ok t) :
    t.Reads ctx.symbols ctx.locals :=
  reads_of_uses htidy ((htidy.supplies hctx).rules.of_exprAt hty h).1

theorem exprAlone_reads (hctx : ctx.Sound) (htidy : ctx.Tidy) (h : exprAlone ctx e = .ok t) :
    t.Reads ctx.symbols ctx.locals :=
  reads_of_uses htidy ((htidy.supplies hctx).rules.of_exprAlone h)

variable {value : Option Expr} {value' : Option Typed.Expr}

theorem bindingParts_reads (hctx : ctx.Sound) (htidy : ctx.Tidy) {written : Option TypeExpr}
    {ident : Ident} {span : Span} {ty : Ty}
    (h : bindingParts ctx written ident value span = .ok (ty, value')) :
    ty.Canonical ctx.symbols.structType? ∧ ∀ t ∈ value', t.Reads ctx.symbols ctx.locals := by
  obtain ⟨hty, -, hvalue⟩ := (htidy.supplies hctx).rules.of_bindingParts
    (fun hresolve =>
      TypeExpr.resolve_gives (Ty.closed_canonical _) (htidy.typeNames hctx) _ hresolve)
    (fun halone huses => (exprAlone_wellTyped hctx halone).canonical htidy.canonical
      (reads_of_uses htidy huses)) h
  refine ⟨hty, fun t ht => ?_⟩
  obtain ⟨_, huses, -⟩ := exists_of_rel hvalue ht
  exact reads_of_uses htidy huses

theorem returnValue_reads {signature : Signature} (hctx : ctx.Inside signature) (htidy : ctx.Tidy)
    {span : Span} (h : returnValue ctx value span = .ok value') :
    ∀ t ∈ value', t.Reads ctx.symbols ctx.locals := by
  obtain ⟨_, _, -, hsymbol, hsignature⟩ := hctx.function
  obtain ⟨_, -, -, hvalue⟩ := (htidy.supplies hctx.sound).rules.of_returnValue
    (fun henclosing => by
      cases hctx.enclosingSignature?.symm.trans henclosing
      exact (htidy.canonical.signature (List.mem_of_getElem? hsymbol) hsignature).1) h
  intro t ht
  obtain ⟨_, huses, -⟩ := exists_of_rel hvalue ht
  exact reads_of_uses htidy huses

theorem assignment_reads (hctx : ctx.Sound) (htidy : ctx.Tidy) {target value : Expr}
    {target' value' : Typed.Expr} (h : assignment ctx target value = .ok (target', value')) :
    target'.Reads ctx.symbols ctx.locals ∧ value'.Reads ctx.symbols ctx.locals := by
  obtain ⟨hwell, -⟩ := assignment_eq_ok hctx h
  obtain ⟨htarget, -, -, hvalue, -⟩ := (htidy.supplies hctx).rules.of_assignment
    (fun huses => hwell.canonical htidy.canonical (reads_of_uses htidy huses)) h
  exact ⟨reads_of_uses htidy htarget, reads_of_uses htidy hvalue⟩

end Typing

/-! ### Statements -/

namespace Check

variable {α β : Type} {signature : Signature} {s s' : Progress}

/-- An attempt that succeeds leaves the state as it is. -/
theorem attempt_bind_eq_ok {f : Context → Except Fault α} {next : α → Check β} {b : β}
    (h : (context >>= fun ctx => attempt (f ctx) >>= next) s = .ok (b, s')) :
    ∃ a, f s.toContext = .ok a ∧ next a s = .ok (b, s') := by
  obtain ⟨_, _, hcontext, h⟩ := bind_eq_ok.mp h
  cases hcontext
  obtain ⟨a, _, hattempt, h⟩ := bind_eq_ok.mp h
  obtain ⟨ha, rfl⟩ := attempt_eq_ok hattempt
  exact ⟨a, ha, h⟩

theorem scopes_inScope {step : Check α} {P : SymbolTable → α → Prop} {a : α}
    (hstep : Ensures signature { s with scopes := s.scopes.push none } step P)
    (h : inScope none step s = .ok (a, s')) :
    ∃ inner, step { s with scopes := s.scopes.push none } = .ok (a, inner) ∧
      inner.symbols = s'.symbols ∧ s'.scopes = s.scopes := by
  obtain ⟨inner, hrun, rfl⟩ := inScope_eq_ok h
  obtain ⟨-, hgrows, -⟩ := hstep a inner hrun
  exact ⟨inner, hrun, rfl, hgrows.pop_push⟩

variable {duplicate : Problem}

theorem locals_declare {ident : Ident} {ty : Ty} {id : SymbolId} (hs : s.Inside signature)
    (h : declare ident ty duplicate s = .ok (id, s')) : s'.locals = id :: s.locals := by
  simp only [declare] at h
  split at h
  · rename_i _ hadd
    cases h
    obtain ⟨_, _, _, hscopes, rfl⟩ := ScopeStack.add_eq_some hs.isInner hadd
    simp [Context.locals, hscopes, Scope.insert]
  · cases h

theorem canonical_declare {ident : Ident} {ty : Ty} {id : SymbolId} (hs : s.symbols.Canonical)
    (hty : ty.Canonical s.symbols.structType?) (h : declare ident ty duplicate s = .ok (id, s')) :
    s'.symbols.Canonical := by
  simp only [declare] at h
  generalize hsymbol : Symbol.mk ident.name .binding ident.span ty = symbol at h
  split at h
  · cases h
    have hextends : s.symbols.Extends (s.symbols ++ [symbol]) :=
      ⟨[symbol], rfl, by simp [← hsymbol]⟩
    intro other hmem
    rw [funext hextends.structType?_eq]
    rcases List.mem_append.mp hmem with hmem | hmem
    · exact hs other hmem
    · rw [List.mem_singleton.mp hmem, ← hsymbol]
      exact hty
  · cases h

end Check

namespace Stmt

open Check (bind_eq_ok attempt_bind_eq_ok Ensures)

variable {signature : Signature} {s s' : Progress}

/-- The step gives a statement that reads only variables that have been declared, and adds the one
that the statement declares. -/
def Scopes (signature : Signature) (step : Check Typed.Stmt) : Prop :=
  ∀ ⦃s s' : Progress⦄ ⦃t : Typed.Stmt⦄, s.Inside signature → s.Tidy → step s = .ok (t, s') →
    s'.symbols.Canonical ∧ s'.locals = t.declared ++ s.locals ∧
      ∀ symbols, s'.symbols.Extends symbols → t.WellScoped symbols s.locals

theorem loopControl_eq_ok {inLoop : Bool} {keyword : String} {span : Span} {t t' : Typed.Stmt}
    (h : (do Check.attempt (Typing.loopControl inLoop keyword span); pure t : Check Typed.Stmt) s =
      .ok (t', s')) : t' = t ∧ s' = s := by
  obtain ⟨_, _, hattempt, h⟩ := bind_eq_ok.mp h
  obtain ⟨-, rfl⟩ := Check.attempt_eq_ok hattempt
  cases h
  exact ⟨rfl, rfl⟩

variable {step : Check Typed.Stmt} {P : SymbolTable → Typed.Stmt → Prop}

theorem inScope_wellScoped {t : Typed.Stmt}
    (hwell : ∀ s' : Progress, s'.Inside signature → Ensures signature s' step P)
    (hstep : Scopes signature step) (hs : s.Inside signature) (htidy : s.Tidy)
    (h : Check.inScope none step s = .ok (t, s')) :
    s'.Inside signature ∧ s'.Tidy ∧ s.symbols.Extends s'.symbols ∧
      s'.locals = s.locals ∧ ∀ symbols, s'.symbols.Extends symbols →
        t.WellScoped symbols s.locals := by
  obtain ⟨hs', hgrows, -⟩ := Ensures.inScope hs hwell _ _ h
  obtain ⟨_, hrun, hsymbols, hscopes⟩ := Check.scopes_inScope (hwell _ hs.push) h
  obtain ⟨hcanonical, -, hscoped⟩ := hstep (s := { s with scopes := s.scopes.push none }) hs.push
    htidy.push hrun
  refine ⟨hs', hgrows.tidy hs.sound htidy (hsymbols ▸ hcanonical), hgrows.symbols,
    Context.locals_congr hscopes, fun symbols h => ?_⟩
  exact hscoped symbols (hsymbols ▸ h)

theorem branches_wellScoped {s1 : Progress} {condition : Expr} {condition' : Typed.Expr}
    {t : Typed.Stmt} {t? : Option Typed.Stmt} (hs : s.Inside signature) (htidy : s.Tidy)
    (hcondition : Typing.exprAt s.toContext .bool condition = .ok condition')
    (hwell : ∀ s' : Progress, s'.Inside signature → Ensures signature s' step P)
    (hstep : Scopes signature step) (hthen : Check.inScope none step s = .ok (t, s1))
    (helse : s1.Inside signature → s1.Tidy →
      s'.symbols.Canonical ∧ s1.symbols.Extends s'.symbols ∧ s'.locals = s1.locals ∧
        ∀ symbols, s'.symbols.Extends symbols →
          ∀ t, t? = some t → t.WellScoped symbols s1.locals) :
    s'.symbols.Canonical ∧ s'.locals = s.locals ∧ ∀ symbols, s'.symbols.Extends symbols →
      condition'.Reads symbols s.locals ∧ t.WellScoped symbols s.locals ∧
        ∀ t, t? = some t → t.WellScoped symbols s.locals := by
  obtain ⟨hs1, htidy1, hextends1, hlocals1, hthen'⟩ :=
    inScope_wellScoped hwell hstep hs htidy hthen
  obtain ⟨hcanonical, hextends2, hlocals2, helse'⟩ := helse hs1 htidy1
  rw [hlocals1] at hlocals2 helse'
  refine ⟨hcanonical, hlocals2, fun symbols hsymbols => ?_⟩
  have hextends := hextends2.trans hsymbols
  exact ⟨(Typing.exprAt_reads hs.sound htidy (.basic rfl) hcondition).mono
    (hextends1.trans hextends), hthen' symbols hextends, helse' symbols hsymbols⟩

mutual

/-- A checked statement reads only variables that have been declared. -/
theorem check_scopes : (inLoop : Bool) → (stmt : Stmt) → Scopes signature (stmt.check inLoop)
  | inLoop, .block stmts _ => by
    intro s _ t hs htidy h
    obtain ⟨_, _, hscope, h⟩ := bind_eq_ok.mp h
    cases h
    obtain ⟨_, hrun, hsymbols, hscopes⟩ :=
      Check.scopes_inScope (checkBlock_wellTyped inLoop stmts hs.push) hscope
    obtain ⟨hcanonical, hstmts⟩ := checkBlock_wellScoped
      (s := { s with scopes := s.scopes.push none }) inLoop stmts hs.push htidy.push hrun
    refine ⟨hsymbols ▸ hcanonical, Context.locals_congr hscopes, fun symbols h => ?_⟩
    unfold Typed.Stmt.WellScoped
    exact hstmts symbols (hsymbols ▸ h)
  | _, .binding _ _ _ _ => by
    intro s s' t hs htidy h
    unfold check at h
    obtain ⟨⟨_, _⟩, hparts, h⟩ := attempt_bind_eq_ok h
    obtain ⟨_, _, hdeclare, h⟩ := bind_eq_ok.mp h
    cases h
    obtain ⟨hgrounded, -⟩ := Typing.bindingParts_eq_ok hs.sound hparts
    obtain ⟨-, hgrows, -⟩ := Ensures.declare hs hgrounded _ _ hdeclare
    obtain ⟨hty, hreads⟩ := Typing.bindingParts_reads hs.sound htidy hparts
    refine ⟨Check.canonical_declare htidy.canonical hty hdeclare, Check.locals_declare hs hdeclare,
      fun symbols h => ?_⟩
    unfold Typed.Stmt.WellScoped
    exact fun e he => (hreads e he).mono (hgrows.symbols.trans h)
  | _, .expression _ => by
    intro s s' t hs htidy h
    unfold check at h
    obtain ⟨_, hvalue, h⟩ := attempt_bind_eq_ok h
    cases h
    refine ⟨htidy.canonical, rfl, fun symbols h => ?_⟩
    unfold Typed.Stmt.WellScoped
    exact (Typing.exprAlone_reads hs.sound htidy hvalue).mono h
  | _, .ret _ _ => by
    intro s s' t hs htidy h
    unfold check at h
    obtain ⟨_, hvalue, h⟩ := attempt_bind_eq_ok h
    cases h
    refine ⟨htidy.canonical, rfl, fun symbols h => ?_⟩
    unfold Typed.Stmt.WellScoped
    exact fun e he => (Typing.returnValue_reads hs htidy hvalue e he).mono h
  | _, .assign _ _ _ => by
    intro s s' t hs htidy h
    unfold check at h
    obtain ⟨⟨_, _⟩, hsides, h⟩ := attempt_bind_eq_ok h
    cases h
    obtain ⟨htarget, hvalue⟩ := Typing.assignment_reads hs.sound htidy hsides
    refine ⟨htidy.canonical, rfl, fun symbols h => ?_⟩
    unfold Typed.Stmt.WellScoped
    exact ⟨htarget.mono h, hvalue.mono h⟩
  | inLoop, .conditional _ body elseBody _ | inLoop, .whileLoop _ body elseBody _ => by
    intro s s' t hs htidy h
    unfold check at h
    obtain ⟨_, hcondition, h⟩ := attempt_bind_eq_ok h
    obtain ⟨_, _, hbody, h⟩ := bind_eq_ok.mp h
    obtain ⟨elseBody', _, helse, h⟩ := bind_eq_ok.mp h
    cases h
    obtain ⟨hcanonical, hlocals, hparts⟩ := branches_wellScoped hs htidy hcondition
      (fun _ hs' => check_wellTyped _ body hs') (check_scopes _ body) hbody
      fun hs' htidy' => checkElse_wellScoped inLoop elseBody hs' htidy' helse
    refine ⟨hcanonical, hlocals, fun symbols hsymbols => ?_⟩
    obtain ⟨hcondition', hbody', helse'⟩ := hparts symbols hsymbols
    cases elseBody' with
    | none =>
      unfold Typed.Stmt.WellScoped
      exact ⟨hcondition', hbody'⟩
    | some elseBody' =>
      unfold Typed.Stmt.WellScoped
      exact ⟨hcondition', hbody', helse' elseBody' rfl⟩
  | inLoop, .breakLoop span | inLoop, .continueLoop span => by
    intro s s' t hs htidy h
    unfold check at h
    obtain ⟨rfl, rfl⟩ := loopControl_eq_ok h
    refine ⟨htidy.canonical, rfl, fun symbols h => ?_⟩
    unfold Typed.Stmt.WellScoped
    trivial
  | _, .yield _ _ => by
    intro s s' t hs htidy h
    unfold check at h
    obtain ⟨_, hvalue, h⟩ := attempt_bind_eq_ok h
    cases h
    refine ⟨htidy.canonical, rfl, fun symbols h => ?_⟩
    unfold Typed.Stmt.WellScoped
    intro e he
    obtain ⟨_, hchecked⟩ := Typing.exists_of_rel (Typing.optional_rel (fun _ _ => id) hvalue) he
    exact (Typing.exprAlone_reads hs.sound htidy hchecked).mono h

theorem checkBlock_wellScoped : (inLoop : Bool) → (stmts : List Stmt) → {s s' : Progress} →
    {ts : List Typed.Stmt} → s.Inside signature → s.Tidy →
    checkBlock inLoop stmts s = .ok (ts, s') → s'.symbols.Canonical ∧
      ∀ symbols, s'.symbols.Extends symbols → Typed.Stmt.WellScopedAll symbols s.locals ts
  | _, [], _, _, _, _, htidy, h => by
    cases h
    exact ⟨htidy.canonical, fun _ _ => .nil⟩
  | inLoop, stmt :: rest, s, _, _, hs, htidy, h => by
    obtain ⟨_, s1, hstmt, h⟩ := bind_eq_ok.mp h
    obtain ⟨hs1, hgrows1, -⟩ := check_wellTyped inLoop stmt hs _ _ hstmt
    obtain ⟨hcanonical1, hlocals, hscoped⟩ := check_scopes inLoop stmt hs htidy hstmt
    have htidy1 := hgrows1.tidy hs.sound htidy hcanonical1
    split at h
    · cases hspan : Typing.stretch? rest with
      | none =>
        rw [hspan] at h
        cases h
        refine ⟨hcanonical1, fun symbols hsymbols => ?_⟩
        exact Typed.Stmt.wellScopedAll_cons.mpr ⟨hscoped symbols hsymbols, .nil, by simp⟩
      | some span =>
        rw [hspan] at h
        obtain ⟨_, _, hwarn, h⟩ := bind_eq_ok.mp h
        cases hwarn
        obtain ⟨_, _, hdead, h⟩ := bind_eq_ok.mp h
        cases h
        obtain ⟨-, hgrows2, -⟩ := checkAll_wellTyped
          (s := { s1 with unreachable := s1.unreachable ++ [span] }) inLoop rest hs1 _ _ hdead
        have hcanonical2 := checkAll_canonical
          (s := { s1 with unreachable := s1.unreachable ++ [span] }) inLoop rest hs1
          ⟨htidy1.globals, hcanonical1⟩ hdead
        refine ⟨hcanonical2, fun symbols hsymbols => ?_⟩
        refine Typed.Stmt.wellScopedAll_cons.mpr
          ⟨hscoped symbols (hgrows2.symbols.trans hsymbols), ?_, by simp [Typed.Stmt.isDead]⟩
        simp [Typed.Stmt.WellScopedAll, Typed.Stmt.WellScoped]
    · rename_i hexits
      obtain ⟨_, _, hrest, h⟩ := bind_eq_ok.mp h
      cases h
      obtain ⟨-, hgrows2, -⟩ := checkBlock_wellTyped inLoop rest hs1 _ _ hrest
      obtain ⟨hcanonical2, hrest'⟩ := checkBlock_wellScoped inLoop rest hs1 htidy1 hrest
      rw [hlocals] at hrest'
      refine ⟨hcanonical2, fun symbols hsymbols => ?_⟩
      exact Typed.Stmt.wellScopedAll_cons.mpr
        ⟨hscoped symbols (hgrows2.symbols.trans hsymbols), hrest' symbols hsymbols,
          fun hexits' => absurd hexits' hexits⟩

theorem checkAll_canonical : (inLoop : Bool) → (stmts : List Stmt) → {s s' : Progress} →
    {ts : List Typed.Stmt} → s.Inside signature → s.Tidy →
    checkAll inLoop stmts s = .ok (ts, s') → s'.symbols.Canonical
  | _, [], _, _, _, _, htidy, h => by
    cases h
    exact htidy.canonical
  | inLoop, stmt :: rest, s, _, _, hs, htidy, h => by
    obtain ⟨_, _, hstmt, h⟩ := bind_eq_ok.mp h
    obtain ⟨_, _, hrest, h⟩ := bind_eq_ok.mp h
    cases h
    obtain ⟨hs1, hgrows1, -⟩ := check_wellTyped inLoop stmt hs _ _ hstmt
    obtain ⟨hcanonical1, -, -⟩ := check_scopes inLoop stmt hs htidy hstmt
    exact checkAll_canonical inLoop rest hs1 (hgrows1.tidy hs.sound htidy hcanonical1) hrest

theorem checkElse_wellScoped : (inLoop : Bool) → (stmt : Option Stmt) → {s s' : Progress} →
    {t? : Option Typed.Stmt} → s.Inside signature → s.Tidy →
    checkElse inLoop stmt s = .ok (t?, s') →
      s'.symbols.Canonical ∧ s.symbols.Extends s'.symbols ∧ s'.locals = s.locals ∧
        ∀ symbols, s'.symbols.Extends symbols → ∀ t, t? = some t → t.WellScoped symbols s.locals
  | _, none, _, _, _, _, htidy, h => by
    cases h
    exact ⟨htidy.canonical, .refl _, rfl, by simp⟩
  | inLoop, some stmt, s, _, _, hs, htidy, h => by
    obtain ⟨t, _, hscope, h⟩ := bind_eq_ok.mp h
    cases h
    obtain ⟨-, htidy', hextends, hlocals, hscoped⟩ := inScope_wellScoped
      (fun _ hs' => check_wellTyped inLoop stmt hs') (check_scopes inLoop stmt) hs htidy hscope
    refine ⟨htidy'.canonical, hextends, hlocals, fun symbols h => ?_⟩
    rintro _ ⟨⟩
    exact hscoped symbols h

end

end Stmt

/-! ### Functions -/

/-- The function reads only variables that have been declared, its parameters first of all. -/
def Typed.Function.WellScoped (symbols : SymbolTable) (f : Typed.Function) : Prop :=
  f.body.WellScoped symbols f.params.reverse

namespace Typing

variable {signature : Signature} {s s' : Progress}

theorem locals_params {given : List (Param × Ty)} {ids : List SymbolId} (hs : s.Inside signature)
    (htidy : s.Tidy) (hgiven : ∀ param ∈ given, param.2 ∈ signature.paramTypes)
    (h : params given s = .ok (ids, s')) :
    s'.symbols.Canonical ∧ s'.locals = ids.reverse ++ s.locals := by
  induction given generalizing s s' ids with
  | nil =>
    cases h
    exact ⟨htidy.canonical, rfl⟩
  | cons param _ ih =>
    obtain ⟨param, ty⟩ := param
    obtain ⟨field, hfield, rfl⟩ := List.mem_map.mp (hgiven (param, ty) (by simp))
    have hgrounded := (Signature.grounded_iff.mp hs.signature_grounded).2.of_mem hfield
    obtain ⟨_, _, hdeclare, h⟩ := Check.bind_eq_ok.mp h
    obtain ⟨_, _, hrest, h⟩ := Check.bind_eq_ok.mp h
    cases h
    obtain ⟨hs1, hgrows1, -⟩ := Check.Ensures.declare hs hgrounded _ _ hdeclare
    obtain ⟨_, _, -, hsymbol, hsignature⟩ := hs.function
    have hty := (htidy.canonical.signature (List.mem_of_getElem? hsymbol) hsignature).2 field hfield
    have htidy1 := hgrows1.tidy hs.sound htidy
      (Check.canonical_declare htidy.canonical hty hdeclare)
    obtain ⟨hcanonical, hlocals⟩ :=
      ih hs1 htidy1 (fun param hparam => hgiven param (by simp [hparam])) hrest
    refine ⟨hcanonical, ?_⟩
    rw [hlocals, Check.locals_declare hs hdeclare]
    simp

theorem body_wellScoped {b : FunctionBody} {t : Typed.Body} (hs : s.Inside signature)
    (htidy : s.Tidy) (h : body signature.returnType b s = .ok (t, s')) :
    s'.symbols.Canonical ∧
      ∀ symbols, s'.symbols.Extends symbols → t.WellScoped symbols s.locals := by
  cases b with
  | empty _ =>
    cases h
    exact ⟨htidy.canonical, fun _ _ => trivial⟩
  | block stmts _ =>
    obtain ⟨_, _, hscope, h⟩ := Check.bind_eq_ok.mp h
    cases h
    obtain ⟨_, hrun, hsymbols, -⟩ :=
      Check.scopes_inScope (Stmt.checkBlock_wellTyped false stmts hs.push) hscope
    obtain ⟨hcanonical, hstmts⟩ := Stmt.checkBlock_wellScoped
      (s := { s with scopes := s.scopes.push none }) false stmts hs.push htidy.push hrun
    exact ⟨hsymbols ▸ hcanonical, fun symbols h => hstmts symbols (hsymbols ▸ h)⟩
  | expression _ =>
    obtain ⟨_, hvalue, h⟩ := Check.attempt_bind_eq_ok h
    cases h
    obtain ⟨_, _, -, hsymbol, hsignature⟩ := hs.function
    have hreturn := (htidy.canonical.signature (List.mem_of_getElem? hsymbol) hsignature).1
    exact ⟨htidy.canonical, fun symbols h => (exprAt_reads hs.sound htidy hreturn hvalue).mono h⟩

/-- A checked function reads only variables that have been declared. -/
theorem function_wellScoped {id : SymbolId} {decl : FunctionDecl} {f : Typed.Function}
    (hs : s.Sound) (htidy : s.Tidy) (htop : s.scopes.inner = [])
    (hdecl : IsFunction s.symbols id decl) (h : function id decl s = .ok (f, s')) :
    s'.symbols.Canonical ∧ ∀ symbols, s'.symbols.Extends symbols → f.WellScoped symbols := by
  obtain ⟨_, signature, hsymbol, _, hsignature, _⟩ := hdecl
  obtain ⟨hinside, _, _, t, _, hrun, rfl, rfl⟩ :=
    inside_function hs hsymbol hsignature h
  have hgiven : ∀ param ∈ decl.params.zip signature.paramTypes,
      param.2 ∈ signature.paramTypes := fun param hparam => (List.of_mem_zip hparam).2
  obtain ⟨_, hparams, hbody⟩ := paramsAndBody_eq_ok hrun
  obtain ⟨hs1, hgrows, -⟩ := params_ensures
    (s := { s with scopes := s.scopes.push (some id) }) hinside hgiven _ _ hparams
  obtain ⟨hcanonical1, hlocals⟩ := locals_params
    (s := { s with scopes := s.scopes.push (some id) }) hinside htidy.push hgiven hparams
  have htidy1 := hgrows.tidy hinside.sound htidy.push hcanonical1
  obtain ⟨hcanonical2, hscoped⟩ := body_wellScoped hs1 htidy1 hbody
  have hnone : Context.locals ⟨s.symbols, s.scopes⟩ = [] := by simp [Context.locals, htop]
  rw [hlocals, Context.locals_push, hnone, List.append_nil] at hscoped
  exact ⟨hcanonical2, hscoped⟩

end Typing

theorem Declarations.noGlobalVariables {decls : List TopLevel} {scopes : ScopeStack}
    {symbols : SymbolTable} (hdeclare : declare decls = .ok scopes)
    (hpopulate : populate decls = .ok symbols) :
    Context.NoGlobalVariables ⟨symbols, scopes⟩ := by
  intro name id hid
  rw [ScopeStack.lookupGlobal, (declare_eq_ok hdeclare).2.2] at hid
  obtain ⟨hlt, -, -⟩ := List.findIdx?_eq_some_iff_getElem.mp hid
  obtain ⟨_, hsymbol, his⟩ := symbol_of_decl hpopulate (List.getElem?_eq_getElem hlt)
  rw [Context.symbolAt, symbolAt_eq hsymbol, his.kind_eq]
  cases decls[id] <;> simp [kind]

/-- The functions of an accepted program read only variables that have been declared, and every
struct in a type is the one that its name stands for. -/
theorem accepted_wellScoped {keepGoing : Bool} {trees : List SyntaxTree} {p : Typed.Program}
    (h : (checkProgram keepGoing trees).program = some p) :
    p.symbols.Canonical ∧ ∀ f, .function f ∈ p.decls → f.WellScoped p.symbols := by
  have hall := accepted_forall (P := fun ctx => ctx.Sound ∧ ctx.Tidy ∧ ctx.scopes.inner = [])
    (Q := fun symbols f => f.WellScoped symbols) ?_ ?_ h
  · obtain ⟨⟨_, -, htidy, -⟩, hscoped⟩ := hall
    exact ⟨htidy.canonical, hscoped⟩
  · intro globals symbols hdeclare hpopulate
    exact ⟨Declarations.sound_context hdeclare hpopulate,
      ⟨Declarations.noGlobalVariables hdeclare hpopulate,
        Declarations.canonical_symbols hdeclare hpopulate⟩,
      (Declarations.declare_eq_ok hdeclare).1⟩
  · rintro s s' id decl f ⟨hs, htidy, htop⟩ hdecl hrun
    obtain ⟨hs', hscopes, hextends, -⟩ := Typing.function_wellTyped hs hdecl hrun
    have hgrows : s.Grows s'.toContext := ⟨hextends, by rw [hscopes], by rw [hscopes]⟩
    obtain ⟨hcanonical, hscoped⟩ := Typing.function_wellScoped hs htidy htop hdecl hrun
    exact ⟨⟨hs', hgrows.tidy hs htidy hcanonical, by rw [hscopes, htop]⟩, hextends, hscoped⟩

end Laye
