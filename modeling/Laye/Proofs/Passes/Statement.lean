import Laye.Proofs.Passes.TypeNames
import Laye.Proofs.Regular.Program

/-!
# The walk over statements

The check of the bodies is one walk that changes a single `Session`: the symbols, the open scopes,
the number of loops around the current statement, and what was found. A fault is reported and ends
the walk of a function at once, however deep it is: the blocks around it leave their scopes open,
and the variables declared so far stay among the symbols. The walk traps where a loop is left that
was not entered, and where its expressions do.

`Walk.Follows` says that inside a function a walk does what a step of the check does. It does not
trap. If the step stops, then so does the walk, after it has reported what the step found, with the
fault as the last and only error; the scopes around the current one are as they were. It holds of
the walks over all statements (`Stmt.walk_follows`). -/

namespace Laye

open Step (report stop look change Runs)

/-! ### Parts of statements -/

namespace Guarded

variable {S : Type} [Logs S]

/-- An expression at a given type. -/
def exprAt (ctx : Context) (ty : Ty) (e : Expr) : Step S Typed.Expr := do
  let e ← check ctx e
  convertTo e ty

/-- An expression of a type of its own. -/
def exprAlone (ctx : Context) (e : Expr) : Step S Typed.Expr := do
  let e ← check ctx e
  withDefaultType e

/-- An expression that may be missing. -/
def optional (check : Expr → Step S Typed.Expr) : Option Expr → Step S (Option Typed.Expr)
  | none => pure none
  | some e => do
    let e ← check e
    pure (some e)

/-- The type and the value of a declared variable. -/
def bindingParts (ctx : Context) (ty : Option TypeExpr) (ident : Ident) (value : Option Expr)
    (span : Span) : Step S (Ty × Option Typed.Expr) := do
  let (ty, value) ←
    match ty, value with
    | some ty, value => do
      let ty ← resolve (typeNames ctx) ty
      let value ← optional (exprAt ctx ty) value
      pure (ty, value)
    | none, some value => do
      let value ← exprAlone ctx value
      pure (value.ty, some value)
    | none, none => do
      report ⟨ident.span, .untypedBinding⟩
      stop
  if ty.isVoid then do
    report ⟨span, .voidBinding ident.name⟩
    stop
  else pure (ty, value)

/-- The signature of the function that a scope belongs to. -/
def enclosingSignature? (ctx : Context) : Except Trap (Option Signature) :=
  match ctx.scopes.enclosingFunction with
  | none => .ok none
  | some id => do
    let symbol ← symbolAt ctx.symbols id
    .ok symbol.signature?

/-- The value of a `return`. -/
def returnValue (ctx : Context) (value : Option Expr) (span : Span) :
    Step S (Option Typed.Expr) := do
  match ← look (enclosingSignature? ctx) with
  | none => do
    report ⟨span, .returnOutsideFunction⟩
    stop
  | some signature =>
    match value, signature.returnType.isVoid with
    | some value, true => do
      report ⟨value.span, .returnFromVoid signature.name⟩
      stop
    | none, true => pure none
    | none, false => do
      report ⟨span, .missingReturnValue signature.name signature.returnType⟩
      stop
    | some value, false => do
      let value ← exprAt ctx signature.returnType value
      pure (some value)

/-- The two sides of an assignment. -/
def assignment (ctx : Context) (target value : Expr) : Step S (Typed.Expr × Typed.Expr) := do
  let target ← check ctx target
  if ← look (isPlace ctx target) then
    match target.readOnlyContainer? with
    | some container => do
      report ⟨target.span, .assignReadOnly container⟩
      stop
    | none => do
      let value ← exprAt ctx target.ty value
      pure (target, value)
  else do
    report ⟨target.span, .assignToValue⟩
    stop

section Runs

variable {table : SymbolTable} {ctx : Context} {signature : Signature}

theorem runs_exprAt (hctx : ctx.Sound) (hregular : ctx.Regular table) {ty : Ty}
    (hty : ty.Normal table false) (e : Expr) :
    Runs (S := S) (exprAt ctx ty e) (Typing.exprAt ctx ty e) :=
  (check_runs hctx hregular e).bind fun e' _ => runs_convertTo hty.hasKeywordWidth e'

theorem runs_exprAlone (hctx : ctx.Sound) (hregular : ctx.Regular table) (e : Expr) :
    Runs (S := S) (exprAlone ctx e) (Typing.exprAlone ctx e) :=
  (check_runs hctx hregular e).bind fun e' _ => runs_withDefaultType e'

theorem runs_optional {check : Expr → Step S Typed.Expr} {check' : Expr → Except Fault Typed.Expr}
    (h : ∀ e, (check e).Runs (check' e)) (value : Option Expr) :
    (optional check value).Runs (Typing.optional check' value) := by
  cases value with
  | none => exact .pure _
  | some e => exact (h e).bind fun _ _ => .pure _

theorem runs_bindingParts (hctx : ctx.Sound) (hregular : ctx.Regular table)
    (ty : Option TypeExpr) (ident : Ident) (value : Option Expr) (span : Span) :
    Runs (S := S) (bindingParts ctx ty ident value span)
      (Typing.bindingParts ctx ty ident value span) := by
  have hlast : ∀ part : Ty × Option Typed.Expr, Runs (S := S)
      (if part.1.isVoid then report ⟨span, .voidBinding ident.name⟩ >>= fun _ => stop
        else pure part)
      (if part.1.isVoid then .error ⟨span, .voidBinding ident.name⟩ else .ok part) := by
    intro part
    split
    · exact .refused _
    · exact .pure _
  cases ty with
  | some ty =>
    refine (runs_resolve hctx ty).bind fun ty' hty => ?_
    have hnormal := TypeExpr.resolve_normal (hregular.typeNames hctx) _ _ hty
    exact (runs_optional (runs_exprAt hctx hregular hnormal) value).bind fun value' _ =>
      hlast (ty', value')
  | none =>
    cases value with
    | none => exact .refused _
    | some value =>
      exact (runs_exprAlone hctx hregular value).bind fun value' _ =>
        hlast (value'.ty, some value')

theorem enclosingSignature?_eq_ok (hctx : ctx.Inside signature) :
    enclosingSignature? ctx = .ok ctx.enclosingSignature? := by
  obtain ⟨_, _, hid, hsymbol, -⟩ := hctx.function
  simp [enclosingSignature?, Context.enclosingSignature?, hid, symbolAt_eq_ok hsymbol,
    Context.symbolAt, bind, Except.bind]

theorem runs_returnValue (hctx : ctx.Inside signature) (hregular : ctx.Regular table)
    (value : Option Expr) (span : Span) :
    Runs (S := S) (returnValue ctx value span) (Typing.returnValue ctx value span) := by
  have hreturn := (hregular.enclosing hctx).1
  unfold returnValue Typing.returnValue
  refine .look_bind (enclosingSignature?_eq_ok hctx) ?_
  rw [hctx.enclosingSignature?]
  simp only
  cases signature.returnType.isVoid with
  | true =>
    cases value with
    | none => exact .pure _
    | some _ => exact .refused _
  | false =>
    cases value with
    | none => exact .refused _
    | some value => exact (runs_exprAt hctx.sound hregular hreturn value).bind fun _ _ => .pure _

theorem runs_assignment (hctx : ctx.Sound) (hregular : ctx.Regular table) (target value : Expr) :
    Runs (S := S) (assignment ctx target value) (Typing.assignment ctx target value) := by
  refine (check_runs hctx hregular target).bind fun target' htarget => ?_
  have hplace : isPlace ctx target' = .ok (target'.isPlaceIn ctx) := by
    rcases Expr.check_checked hctx target htarget with hwell | hliteral
    · exact isPlace_eq_ok hwell
    · cases hliteral <;> rfl
  refine .look_bind hplace ?_
  cases hisPlace : target'.isPlaceIn ctx with
  | false => exact .refused _
  | true =>
    cases target'.readOnlyContainer? with
    | some _ => exact .refused _
    | none =>
      -- a place is no literal, so its type is in normal form
      have hnormal : target'.Regular table := by
        refine (Expr.check_loose hctx hregular target htarget).resolve_right fun hliteral => ?_
        cases hliteral <;> cases hisPlace
      exact (runs_exprAt hctx hregular hnormal.ty value).bind fun _ _ => .pure _

end Runs

end Guarded

/-! ### Walks -/

/-- What a check changes on its way. -/
structure Session extends Log where
  symbols : SymbolTable
  scopes : ScopeStack
  loopDepth : Nat
deriving Inhabited

namespace Session

/-- What names mean at this point. -/
def context (σ : Session) : Context := ⟨σ.symbols, σ.scopes⟩

/-- The session with one more finding. -/
def report (finding : Finding) (σ : Session) : Session :=
  { σ with toLog := σ.toLog.report finding }

end Session

instance : Logs Session := ⟨Session.toLog, Session.report⟩

/-- A part of a walk. -/
abbrev Walk (α : Type) : Type := Step Session α

namespace Walk

variable {α : Type}

/-- What is read off the session. -/
def read (f : Session → α) : Walk α := fun σ => .ok (some (f σ), σ)

/-- A part that depends on what names mean at this point. -/
def within (part : Context → Walk α) : Walk α := fun σ => part σ.context σ

/-- Opens a scope, for a function if one is given. -/
def openScope (function : Option SymbolId) : Walk Unit :=
  change fun σ => { σ with scopes := σ.scopes.push function }

/-- Closes the innermost scope. -/
def closeScope : Walk Unit := change fun σ => { σ with scopes := σ.scopes.pop }

/-- A block in a scope of its own. One that stops leaves its scope open. -/
def inBlock (walk : Walk α) : Walk α := do
  openScope none
  let a ← walk
  closeScope
  pure a

/-- The body of an `if` or a `while` in a scope of its own. The innermost scope is closed even if
the body stops. -/
def inBody (walk : Walk α) : Walk α := do
  openScope none
  walk.thenAlways fun σ => .ok { σ with scopes := σ.scopes.pop }

/-- One loop less is around what follows. -/
def leaveLoop (σ : Session) : Except Trap Session :=
  if 1 ≤ σ.loopDepth then .ok { σ with loopDepth := σ.loopDepth - 1 } else .error .loop

/-- The body of a loop. -/
def inLoop (walk : Walk α) : Walk α := do
  change fun σ => { σ with loopDepth := σ.loopDepth + 1 }
  walk.thenAlways leaveLoop

/-- `break` and `continue` stand in a loop. -/
def loopControl (keyword : String) (span : Span) : Walk Unit := do
  if (← read (·.loopDepth)) = 0 then do
    report ⟨span, .outsideLoop keyword⟩
    stop
  else pure ()

/-- Declares a variable in the innermost scope. Its symbol is made even if the scope has the name
already. -/
def declare (ident : Ident) (ty : Ty) (duplicate : Problem) : Walk SymbolId := do
  let id ← read (·.symbols.length)
  -- first the symbol, then the name: nothing takes the symbol back
  change fun σ => { σ with symbols := σ.symbols ++ [⟨ident.name, .binding, ident.span, ty⟩] }
  match ← read (·.scopes.add ident.name id) with
  | some scopes => do
    change fun σ => { σ with scopes := scopes }
    pure id
  | none => do
    report ⟨ident.span, duplicate⟩
    stop

end Walk

namespace Stmt

open Walk (within)

mutual

/-- Walks over a statement. -/
def walk : Stmt → Walk Typed.Stmt
  | .block stmts span => do
    let stmts ← Walk.inBlock (walkBlock stmts)
    pure (.block stmts span)
  | .binding ty ident value span => do
    let (ty, value) ← within (Guarded.bindingParts · ty ident value span)
    let symbol ← Walk.declare ident ty (.duplicateBinding ident.name)
    pure (.binding symbol value span)
  | .expression value => do
    let value ← within (Guarded.exprAlone · value)
    pure (.expression value)
  | .ret value span => do
    let value ← within (Guarded.returnValue · value span)
    pure (.ret value span)
  | .assign target value span => do
    let (target, value) ← within (Guarded.assignment · target value)
    pure (.assign target value span)
  | .conditional condition thenBody elseBody span => do
    let condition ← within (Guarded.exprAt · .bool condition)
    let thenBody ← Walk.inBody thenBody.walk
    let elseBody ← walkElse elseBody
    pure (.conditional condition thenBody elseBody span)
  | .whileLoop condition body elseBody span => do
    let condition ← within (Guarded.exprAt · .bool condition)
    let body ← Walk.inLoop (Walk.inBody body.walk)
    let elseBody ← walkElse elseBody
    pure (.whileLoop condition body elseBody span)
  | .breakLoop span => do
    Walk.loopControl "break" span
    pure (.breakLoop span)
  | .continueLoop span => do
    Walk.loopControl "continue" span
    pure (.continueLoop span)
  | .yield value span => do
    let value ← within fun ctx => Guarded.optional (Guarded.exprAlone ctx) value
    pure (.yield value span)

def walkBlock : List Stmt → Walk (List Typed.Stmt)
  | [] => pure []
  | stmt :: rest => do
    let stmt ← stmt.walk
    if stmt.alwaysExits then
      match Typing.stretch? rest with
      | none => pure [stmt]
      | some span => do
        change (Session.report (.unreachable span))
        let dead ← walkAll rest
        pure [stmt, .deadCode dead span]
    else do
      let rest ← walkBlock rest
      pure (stmt :: rest)

def walkAll : List Stmt → Walk (List Typed.Stmt)
  | [] => pure []
  | stmt :: rest => do
    let stmt ← stmt.walk
    let rest ← walkAll rest
    pure (stmt :: rest)

def walkElse : Option Stmt → Walk (Option Typed.Stmt)
  | none => pure none
  | some stmt => do
    let stmt ← Walk.inBody stmt.walk
    pure (some stmt)

end

end Stmt

/-! ### Walks and steps of the check -/

namespace Session

/-- The session at a point of a function, given what was reported before the function and the number
of loops around the point. -/
def during (log : Log) (depth : Nat) (s : Progress) : Session :=
  ⟨⟨log.before, log.findings ++ s.unreachable.map .unreachable⟩, s.symbols, s.scopes, depth⟩

/-- The session after a function stopped somewhere beyond the point. Scopes may have stayed open,
but those around the innermost one are as they were. The types are still those of `table`. -/
structure Stopped (table : SymbolTable) (log : Log) (depth : Nat) (s : Progress)
    (refusal : Refusal) (σ : Session) : Prop where
  log_eq : σ.toLog = ⟨log.before, log.findings ++ refusal.findings⟩
  loopDepth_eq : σ.loopDepth = depth
  symbols : s.symbols.Extends σ.symbols
  globals_eq : σ.scopes.globals = s.scopes.globals
  inner_eq : ∃ opened scope, σ.scopes.inner = opened ++ scope :: s.scopes.inner.tail
  regular : σ.context.Regular table

/-- The walk comes to what the step comes to, without a trap. -/
inductive Mirrors {α : Type} (signature : Signature) (table : SymbolTable) (log : Log) (depth : Nat)
    (s : Progress) : Except Refusal (α × Progress) → Except Trap (Option α × Session) → Prop where
  | passed {a : α} {s' : Progress} (hgrows : s.toContext.Grows s'.toContext)
      (hinside : s'.toContext.Inside signature) (hregular : s'.toContext.Regular table) :
      Mirrors signature table log depth s (.ok (a, s')) (.ok (some a, during log depth s'))
  | stopped {refusal : Refusal} {σ : Session} (hstopped : Stopped table log depth s refusal σ) :
      Mirrors signature table log depth s (.error refusal) (.ok (none, σ))

variable {signature : Signature} {table : SymbolTable} {log : Log} {depth : Nat} {s s' : Progress}

theorem Mirrors.of_grows {α : Type} {x : Except Refusal (α × Progress)}
    {y : Except Trap (Option α × Session)} (hgrows : s.toContext.Grows s'.toContext)
    (h : Mirrors signature table log depth s' x y) : Mirrors signature table log depth s x y := by
  cases h with
  | passed hgrows' hinside hregular => exact .passed (hgrows.trans hgrows') hinside hregular
  | stopped hstopped =>
    obtain ⟨opened, scope, hinner⟩ := hstopped.inner_eq
    exact .stopped ⟨hstopped.log_eq, hstopped.loopDepth_eq, hgrows.symbols.trans hstopped.symbols,
      hstopped.globals_eq.trans hgrows.globals, ⟨opened, scope, by rw [hinner, hgrows.outer]⟩,
      hstopped.regular⟩

theorem Stopped.here (hinner : s.scopes.inner ≠ []) (hregular : s.toContext.Regular table)
    (fault : Fault) : Stopped table log depth s ⟨s.unreachable, fault⟩
      ((during log depth s).report (.fault fault)) := by
  obtain ⟨scope, _, houter⟩ := List.exists_cons_of_ne_nil hinner
  refine ⟨?_, rfl, .refl _, rfl, ⟨[], scope, ?_⟩, hregular⟩
  · simp [during, report, Log.report, Refusal.findings]
  · simp [during, report, houter]

/-- A stop inside a scope is one outside it, also if one scope is closed on the way out. That scope
is the one that was opened here only if none was left open inside it. -/
theorem Stopped.outside {refusal : Refusal} {σ : Session} (hinner : s.scopes.inner ≠ [])
    (h : Stopped table log depth { s with scopes := s.scopes.push none } refusal σ) :
    Stopped table log depth s refusal σ ∧
      Stopped table log depth s refusal { σ with scopes := σ.scopes.pop } := by
  obtain ⟨opened, scope, hopen⟩ := h.inner_eq
  obtain ⟨current, _, houter⟩ := List.exists_cons_of_ne_nil hinner
  refine ⟨⟨h.log_eq, h.loopDepth_eq, h.symbols, h.globals_eq, ⟨opened ++ [scope], current, ?_⟩,
    h.regular⟩, h.log_eq, h.loopDepth_eq, h.symbols, h.globals_eq, ?_, h.regular.extends_table,
    h.regular.types⟩
  · simpa [ScopeStack.push, houter] using hopen
  · cases opened with
    | nil => exact ⟨[], current, by simp [hopen, houter]⟩
    | cons _ opened => exact ⟨opened ++ [scope], current, by simp [hopen, houter]⟩

end Session

open Session (during Mirrors Stopped)

/-- Inside a function, the walk comes to what the step comes to. -/
def Walk.Follows {α : Type} (signature : Signature) (table : SymbolTable) (depth : Nat)
    (walk : Walk α) (step : Check α) : Prop :=
  ∀ (log : Log) (s : Progress), s.toContext.Inside signature → s.toContext.Regular table →
    Mirrors signature table log depth s (step s) (walk (during log depth s))

namespace Walk.Follows

variable {α β : Type} {signature : Signature} {table : SymbolTable} {depth : Nat} {walk : Walk α}
  {step : Check α}

theorem pure (a : α) : Follows signature table depth (Pure.pure a) (Pure.pure a) :=
  fun _ _ hinside hregular => .passed (.refl _) hinside hregular

variable {next : α → Walk β} {next' : α → Check β} {part : Context → Walk α}
  {part' : Context → Except Fault α}

theorem bind (h : Follows signature table depth walk step)
    (hnext : ∀ a, Follows signature table depth (next a) (next' a)) :
    Follows signature table depth (walk >>= next) (step >>= next') := by
  intro log s hinside hregular
  have hfirst := h log s hinside hregular
  show Mirrors signature table log depth s (step s >>= fun r => next' r.1 r.2)
    (Step.resume next (walk (during log depth s)))
  generalize step s = x, walk (during log depth s) = y at hfirst
  -- what follows is only reached if both pass, and then from the same point
  cases hfirst with
  | passed hgrows hinside' hregular' => exact (hnext _ log _ hinside' hregular').of_grows hgrows
  | stopped hstopped => exact .stopped hstopped

/-- A part of a statement, of whose results something is known. -/
theorem within_bind {P : α → Prop}
    (hpart : ∀ ctx : Context, ctx.Inside signature → ctx.Regular table →
      (part ctx).Runs (part' ctx) ∧ ∀ a, part' ctx = .ok a → P a)
    (hnext : ∀ a, P a → Follows signature table depth (next a) (next' a)) :
    Follows signature table depth (Walk.within part >>= next)
      (Check.context >>= fun ctx => Check.attempt (part' ctx) >>= next') := by
  intro log s hinside hregular
  obtain ⟨hrun, hpost⟩ := hpart s.toContext hinside hregular
  have hwithin : Walk.within part (during log depth s) =
      .ok (Step.outcome (part' s.toContext) (during log depth s)) := hrun _
  show Mirrors signature table log depth s ((Check.attempt (part' s.toContext) >>= next') s) _
  cases hresult : part' s.toContext with
  | error fault =>
    rw [hresult] at hwithin
    rw [Step.bind_none hwithin]
    exact .stopped (.here hinside.isInner hregular fault)
  | ok a =>
    rw [hresult] at hwithin
    rw [Step.bind_some hwithin]
    exact hnext a (hpost a hresult) log s hinside hregular

theorem within_then
    (hpart : ∀ ctx : Context, ctx.Inside signature → ctx.Regular table →
      (part ctx).Runs (part' ctx))
    (hnext : ∀ a, Follows signature table depth (next a) (next' a)) :
    Follows signature table depth (Walk.within part >>= next)
      (Check.context >>= fun ctx => Check.attempt (part' ctx) >>= next') :=
  within_bind (P := fun _ => True)
    (fun ctx hctx hregular => ⟨hpart ctx hctx hregular, fun _ _ => trivial⟩) fun a _ => hnext a

theorem warn (span : Span) :
    Follows signature table depth (change (Session.report (.unreachable span)))
      (Check.warn span) := by
  intro log s hinside hregular
  have hreport : (during log depth s).report (.unreachable span) =
      during log depth { s with unreachable := s.unreachable ++ [span] } := by
    simp [during, Session.report, Log.report]
  rw [change, hreport]
  exact .passed ⟨.refl _, rfl, rfl⟩ hinside hregular

theorem loopControl (keyword : String) (span : Span) :
    Follows signature table depth (Walk.loopControl keyword span)
      (Check.attempt (Typing.loopControl (depth != 0) keyword span)) := by
  intro log s hinside hregular
  cases depth with
  | zero => exact .stopped (.here hinside.isInner hregular _)
  | succ _ => exact .passed (.refl _) hinside hregular

theorem declare (ident : Ident) {ty : Ty} (duplicate : Problem) (hty : ty.Normal table false) :
    Follows signature table depth (Walk.declare ident ty duplicate)
      (Check.declare ident ty duplicate) := by
  intro log s hinside hregular
  have hwalk : Walk.declare ident ty duplicate (during log depth s) =
      match s.scopes.add ident.name s.symbols.length with
      | some scopes => .ok (some s.symbols.length, during log depth { s with
          symbols := s.symbols ++ [⟨ident.name, .binding, ident.span, ty⟩]
          scopes := scopes })
      | none => .ok (none, { (during log depth s).report (.fault ⟨ident.span, duplicate⟩) with
          symbols := s.symbols ++ [⟨ident.name, .binding, ident.span, ty⟩] }) := by
    change (match s.scopes.add ident.name s.symbols.length with
      | some _ => _
      | none => _ : Walk SymbolId) _ = _
    cases s.scopes.add ident.name s.symbols.length <;> rfl
  rw [hwalk]
  cases hadd : s.scopes.add ident.name s.symbols.length with
  | none =>
    -- the symbol is there already when the name turns out to be taken
    have hcheck : Check.declare ident ty duplicate s =
        .error ⟨s.unreachable, ⟨ident.span, duplicate⟩⟩ := by
      simp only [Check.declare, hadd]
    have hhere : Stopped table log depth s _ _ :=
      .here hinside.isInner hregular ⟨ident.span, duplicate⟩
    rw [hcheck]
    refine .stopped ⟨hhere.log_eq, rfl, ⟨_, rfl, by simp⟩, rfl, hhere.inner_eq,
      hregular.extends_table.trans ⟨_, rfl, by simp⟩, ?_⟩
    intro symbol hmem
    rcases List.mem_append.mp hmem with hmem | hmem
    · exact hregular.types symbol hmem
    · rw [List.mem_singleton.mp hmem]
      exact hty
  | some scopes =>
    have hcheck : Check.declare ident ty duplicate s = .ok (s.symbols.length, { s with
        symbols := s.symbols ++ [⟨ident.name, .binding, ident.span, ty⟩]
        scopes := scopes }) := by
      simp only [Check.declare, hadd]
    obtain ⟨hinside', hgrows, -⟩ := Check.ensures_declare hty s hinside hregular _ _ hcheck
    rw [hcheck]
    exact .passed hgrows hinside' (Check.KeepsRegular.declare hty hinside hregular hcheck).1

/-- What holds inside a scope that is opened here. -/
theorem opened (h : Follows signature table depth walk step) (log : Log) {s : Progress}
    (hinside : s.toContext.Inside signature) (hregular : s.toContext.Regular table) :
    Mirrors signature table log depth { s with scopes := s.scopes.push none }
      (step { s with scopes := s.scopes.push none })
      (walk (during log depth { s with scopes := s.scopes.push none })) :=
  h log _ hinside.push ⟨hregular.extends_table, hregular.types⟩

/-- Closing that scope leads back to the scopes of before. -/
theorem closed {a : α} {log : Log} {s s' : Progress} (hinside : s.toContext.Inside signature)
    (hgrows : Context.Grows ⟨s.symbols, s.scopes.push none⟩ s'.toContext)
    (hinside' : s'.toContext.Inside signature) (hregular' : s'.toContext.Regular table) :
    Mirrors signature table log depth s (.ok (a, { s' with scopes := s'.scopes.pop }))
      (.ok (some a, during log depth { s' with scopes := s'.scopes.pop })) := by
  have hscopes : s'.scopes.pop = s.scopes := hgrows.pop_push
  rw [hscopes]
  exact .passed ⟨hgrows.symbols, rfl, rfl⟩
    (hinside.extend hgrows.symbols hinside'.sound.grounded)
    ⟨hregular'.extends_table, hregular'.types⟩

theorem inBlock (h : Follows signature table depth walk step) :
    Follows signature table depth (Walk.inBlock walk) (Check.inScope none step) := by
  intro log s hinside hregular
  have hopened := h.opened log hinside hregular
  show Mirrors signature table log depth s
    (step { s with scopes := s.scopes.push none } >>= fun r =>
      .ok (r.1, { r.2 with scopes := r.2.scopes.pop }))
    (Step.resume (fun a => closeScope >>= fun _ => Pure.pure a)
      (walk (during log depth { s with scopes := s.scopes.push none })))
  generalize step _ = x, walk _ = y at hopened
  cases hopened with
  | passed hgrows hinside' hregular' => exact closed hinside hgrows hinside' hregular'
  | stopped hstopped => exact .stopped (hstopped.outside hinside.isInner).1

theorem inBody (h : Follows signature table depth walk step) :
    Follows signature table depth (Walk.inBody walk) (Check.inScope none step) := by
  intro log s hinside hregular
  have hopened := h.opened log hinside hregular
  show Mirrors signature table log depth s
    (step { s with scopes := s.scopes.push none } >>= fun r =>
      .ok (r.1, { r.2 with scopes := r.2.scopes.pop }))
    (Step.settle (fun σ => .ok { σ with scopes := σ.scopes.pop })
      (walk (during log depth { s with scopes := s.scopes.push none })))
  generalize step _ = x, walk _ = y at hopened
  cases hopened with
  | passed hgrows hinside' hregular' => exact closed hinside hgrows hinside' hregular'
  | stopped hstopped => exact .stopped (hstopped.outside hinside.isInner).2

theorem inLoop (h : Follows signature table (depth + 1) walk step) :
    Follows signature table depth (Walk.inLoop walk) step := by
  intro log s hinside hregular
  have hbody := h log s hinside hregular
  show Mirrors signature table log depth s (step s)
    (Step.settle leaveLoop (walk (during log (depth + 1) s)))
  generalize step s = x, walk _ = y at hbody
  -- the loop is left on both ways out
  cases hbody with
  | passed hgrows hinside' hregular' => exact .passed hgrows hinside' hregular'
  | stopped hstopped =>
    rename_i σ
    have hleave : leaveLoop σ = .ok { σ with loopDepth := depth } := by
      simp [leaveLoop, hstopped.loopDepth_eq]
    simp only [Step.settle, hleave]
    exact .stopped ⟨hstopped.log_eq, rfl, hstopped.symbols, hstopped.globals_eq,
      hstopped.inner_eq, hstopped.regular⟩

end Walk.Follows

/-! ### Statements -/

namespace Stmt

variable {signature : Signature} {table : SymbolTable}

theorem condition_runs (condition : Expr) (ctx : Context) (hctx : ctx.Inside signature)
    (hregular : ctx.Regular table) : Runs (S := Session) (Guarded.exprAt ctx .bool condition)
      (Typing.exprAt ctx .bool condition) :=
  Guarded.runs_exprAt hctx.sound hregular (.keyword rfl) condition

theorem bindingParts_runs (ty : Option TypeExpr) (ident : Ident) (value : Option Expr) (span : Span)
    (ctx : Context) (hctx : ctx.Inside signature) (hregular : ctx.Regular table) :
    Runs (S := Session) (Guarded.bindingParts ctx ty ident value span)
        (Typing.bindingParts ctx ty ident value span) ∧
      ∀ part, Typing.bindingParts ctx ty ident value span = .ok part →
        part.1.Normal table false :=
  ⟨Guarded.runs_bindingParts hctx.sound hregular ty ident value span,
    fun _ h => (Typing.bindingParts_regular hctx.sound hregular h).1⟩

mutual

/-- The walk over a statement does what its check does. -/
theorem walk_follows (depth : Nat) (stmt : Stmt) :
    Walk.Follows signature table depth stmt.walk (stmt.check (depth != 0)) := by
  cases stmt with
  | block stmts span =>
    exact (walkBlock_follows depth stmts).inBlock.bind fun _ => .pure _
  | binding ty ident value span =>
    refine .within_bind (bindingParts_runs ty ident value span) ?_
    rintro ⟨ty', value'⟩ hty
    exact (Walk.Follows.declare ident _ hty).bind fun _ => .pure _
  | expression value =>
    exact .within_then (fun _ hctx hregular =>
      Guarded.runs_exprAlone hctx.sound hregular value) fun _ => .pure _
  | ret value span =>
    exact .within_then (fun _ hctx hregular =>
      Guarded.runs_returnValue hctx hregular value span) fun _ => .pure _
  | assign target value span =>
    exact .within_then (fun _ hctx hregular =>
      Guarded.runs_assignment hctx.sound hregular target value) fun _ => .pure _
  | yield value span =>
    exact .within_then (fun _ hctx hregular =>
      Guarded.runs_optional (Guarded.runs_exprAlone hctx.sound hregular) value) fun _ => .pure _
  | conditional condition thenBody elseBody span =>
    exact .within_then (condition_runs condition) fun _ =>
      (walk_follows depth thenBody).inBody.bind fun _ =>
        (walkElse_follows depth elseBody).bind fun _ => .pure _
  | whileLoop condition body elseBody span =>
    exact .within_then (condition_runs condition) fun _ =>
      (walk_follows (depth + 1) body).inBody.inLoop.bind fun _ =>
        (walkElse_follows depth elseBody).bind fun _ => .pure _
  | breakLoop span | continueLoop span =>
    exact (Walk.Follows.loopControl _ span).bind fun _ => .pure _

theorem walkBlock_follows (depth : Nat) (stmts : List Stmt) :
    Walk.Follows signature table depth (walkBlock stmts) (checkBlock (depth != 0) stmts) := by
  cases stmts with
  | nil =>
    exact .pure _
  | cons stmt rest =>
    have hdead := walkAll_follows depth rest
    have hrest := walkBlock_follows depth rest
    refine (walk_follows depth stmt).bind fun t => ?_
    cases t.alwaysExits with
    | true =>
      cases Typing.stretch? rest with
      | none => exact .pure _
      | some span => exact (Walk.Follows.warn span).bind fun _ => hdead.bind fun _ => .pure _
    | false => exact hrest.bind fun _ => .pure _

theorem walkAll_follows (depth : Nat) (stmts : List Stmt) :
    Walk.Follows signature table depth (walkAll stmts) (checkAll (depth != 0) stmts) := by
  cases stmts with
  | nil =>
    exact .pure _
  | cons stmt rest =>
    exact (walk_follows depth stmt).bind fun _ => (walkAll_follows depth rest).bind fun _ =>
      .pure _

theorem walkElse_follows (depth : Nat) (elseBody : Option Stmt) :
    Walk.Follows signature table depth (walkElse elseBody) (checkElse (depth != 0) elseBody) := by
  cases elseBody with
  | none =>
    exact .pure _
  | some stmt => exact (walk_follows depth stmt).inBody.bind fun _ => .pure _

end

end Stmt

end Laye
