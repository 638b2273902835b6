import Laye.Proofs.Arrangement.Declarations
import Laye.Proofs.Arrangement.Expression

/-!
# Checking functions in another place

`Check.Alike` says of two steps of checking that, from contexts that are alike, both stop at the
same fault after the same warnings, or both go on to contexts that are alike, with related results.
The steps of the checker keep it, and so a function is checked in the same way wherever it stands
and under whatever ids (`Typing.alike_function`). -/

namespace Laye

variable {g : SpanMap} {ρ : SymbolId → SymbolId → Prop}

/-! ### Steps -/

/-- The same is known at both points, and the same was found on the way. -/
structure Progress.Alike (g : SpanMap) (ρ : SymbolId → SymbolId → Prop) (s s' : Progress) :
    Prop where
  context : s.toContext.Alike ρ s'.toContext
  unreachable_eq : s'.unreachable = s.unreachable.map g

instance : Located Refusal :=
  ⟨fun g refusal => ⟨refusal.unreachable.map g, Located.respan g refusal.fault⟩⟩

/-- From points that are alike, both steps stop at the same fault after the same warnings, or go on
to points that are alike with related results. -/
def Check.Alike {α β : Type} (g : SpanMap) (ρ : SymbolId → SymbolId → Prop) (R : α → β → Prop)
    (x : Check α) (y : Check β) : Prop :=
  ∀ s s', s.Alike g ρ s' →
    SameOutcome g (fun r r' => R r.1 r'.1 ∧ r.2.Alike g ρ r'.2) (x s) (y s')

namespace Check.Alike

variable {α β γ δ : Type} {R : α → β → Prop} {S : γ → δ → Prop} {x : Check α} {y : Check β}

theorem pure {a : α} {b : β} (h : R a b) : Check.Alike g ρ R (Pure.pure a) (Pure.pure b) :=
  fun _ _ hs => ⟨h, hs⟩

/-- Steps of the checker that go alike do so one after another. -/
theorem bind {f : α → Check γ} {f' : β → Check δ} (h : Check.Alike g ρ R x y)
    (hnext : ∀ a b, R a b → Check.Alike g ρ S (f a) (f' b)) :
    Check.Alike g ρ S (x >>= f) (y >>= f') :=
  fun s s' hs => (h s s' hs).bind fun r r' hr => hnext r.1 r'.1 hr.1 r.2 r'.2 hr.2

theorem attempt {r : Except Fault α} {r' : Except Fault β} (h : SameOutcome g R r r') :
    Check.Alike g ρ R (Check.attempt r) (Check.attempt r') := by
  intro s s' hs
  cases r with
  | error _ =>
    cases r' with
    | error _ => exact congrArg₂ Refusal.mk hs.unreachable_eq h
    | ok _ => exact h.elim
  | ok a =>
    cases r' with
    | error _ => exact h.elim
    | ok b => exact ⟨h, hs⟩

theorem refuse (span : Span) (problem : Problem) :
    Check.Alike g ρ R (Check.refuse span problem) (Check.refuse (g span) problem) :=
  attempt rfl

theorem context : Check.Alike g ρ (Context.Alike ρ) Check.context Check.context :=
  fun _ _ hs => ⟨hs.context, hs⟩

theorem warn (span : Span) :
    Check.Alike g ρ (fun _ _ => True) (Check.warn span) (Check.warn (g span)) :=
  fun _ _ hs => ⟨trivial, hs.context, by simp [hs.unreachable_eq]⟩

theorem inScope {function function' : Option SymbolId} (hfunction : Option.Rel ρ function function')
    (h : Check.Alike g ρ R x y) :
    Check.Alike g ρ R (Check.inScope function x) (Check.inScope function' y) := by
  have hopen : Check.Alike g ρ (fun _ _ => True) (Check.openScope function)
      (Check.openScope function') :=
    fun _ _ hs => ⟨trivial, hs.context.push hfunction, hs.unreachable_eq⟩
  have hclose : Check.Alike g ρ (fun _ _ => True) Check.closeScope Check.closeScope :=
    fun _ _ hs => ⟨trivial, hs.context.pop, hs.unreachable_eq⟩
  exact hopen.bind fun _ _ _ => h.bind fun _ _ hab => hclose.bind fun _ _ _ => pure hab

theorem declare (hρ : PairsOff ρ) (ident : Ident) (ty : Ty) (problem : Problem) :
    Check.Alike g ρ ρ (Check.declare ident ty problem)
      (Check.declare (ident.respan g) ty problem) := by
  intro s s' hs
  have hnew : ρ s.symbols.length s'.symbols.length := hs.context.symbols.fresh 0
  simp only [Check.declare, Ident.name_respan]
  rcases rel_cases (hs.context.scopes.add ident.name hnew) with
    ⟨hx, hy⟩ | ⟨scopes, scopes', hx, hy, h⟩
  · rw [hx, hy]
    exact congrArg (Refusal.mk · _) hs.unreachable_eq
  · rw [hx, hy]
    exact ⟨hnew, ⟨hs.context.concat hρ ⟨rfl, rfl, rfl⟩, h⟩, hs.unreachable_eq⟩

end Check.Alike

/-! ### Parts of statements -/

namespace Typing

variable {ctx ctx' : Context}

theorem alike_typeNames (hctx : ctx.Alike ρ ctx') : ctx.typeNames.Alike g ctx'.typeNames := by
  constructor
  · intro name
    simp only [Context.typeNames]
    rcases rel_cases (hctx.lookup name) with ⟨hx, hy⟩ | ⟨_, _, hx, hy, hid⟩
    · rw [hx, hy]
    · rw [hx, hy]
      simp only [(hctx.symbolAt hid).kind_eq]
  · intro ident
    simp only [Context.typeNames, Ident.name_respan]
    rcases rel_cases (hctx.lookup ident.name) with ⟨hx, hy⟩ | ⟨_, _, hx, hy, hid⟩
    · rw [hx, hy]
      rfl
    · rw [hx, hy]
      refine .ite ?_ (hctx.symbolAt hid).ty_eq rfl
      rw [(hctx.symbolAt hid).kind_eq]

theorem enclosingSignature?_eq (hctx : ctx.Alike ρ ctx') :
    ctx.enclosingSignature? = ctx'.enclosingSignature? := by
  unfold Context.enclosingSignature?
  rcases rel_cases hctx.scopes.current.function with ⟨hx, hy⟩ | ⟨_, _, hx, hy, hid⟩
  · rw [ScopeStack.enclosingFunction, ScopeStack.enclosingFunction, hx, hy]
    rfl
  · rw [ScopeStack.enclosingFunction, ScopeStack.enclosingFunction, hx, hy]
    exact (hctx.symbolAt hid).signature?_eq

theorem alike_exprAt (hctx : ctx.Alike ρ ctx') (ty : Ty) (e : Expr) :
    SameOutcome g (Typed.Expr.Alike g ρ) (exprAt ctx ty e) (exprAt ctx' ty (e.respan g)) :=
  (Expr.alike_check hctx e).bind fun _ _ h => h.convertTo ty

theorem alike_exprAlone (hctx : ctx.Alike ρ ctx') (e : Expr) :
    SameOutcome g (Typed.Expr.Alike g ρ) (exprAlone ctx e) (exprAlone ctx' (e.respan g)) :=
  (Expr.alike_check hctx e).bind fun _ _ h => h.withDefaultType

theorem alike_optional {check check' : Expr → Except Fault Typed.Expr}
    (h : ∀ e, SameOutcome g (Typed.Expr.Alike g ρ) (check e) (check' (e.respan g)))
    (value : Option Expr) :
    SameOutcome g (Option.Rel (Typed.Expr.Alike g ρ)) (optional check value)
      (optional check' (value.map (Expr.respan g))) := by
  cases value with
  | none => exact .none
  | some e => exact (h e).bind fun _ _ h => .some h

/-- The type and the value of a variable are the same, but for spans and for related ids. -/
def PartsAlike (g : SpanMap) (ρ : SymbolId → SymbolId → Prop) (r r' : Ty × Option Typed.Expr) :
    Prop :=
  r.1 = r'.1 ∧ Option.Rel (Typed.Expr.Alike g ρ) r.2 r'.2

theorem alike_bindingParts (hctx : ctx.Alike ρ ctx') (ty : Option TypeExpr) (ident : Ident)
    (value : Option Expr) (span : Span) :
    SameOutcome g (PartsAlike g ρ) (bindingParts ctx ty ident value span)
      (bindingParts ctx' (ty.map (TypeExpr.respan g)) (ident.respan g) (value.map (Expr.respan g))
        (g span)) := by
  cases ty with
  | some ty =>
    refine (TypeExpr.alike_resolve (alike_typeNames hctx) ty).bind_eq fun ty => ?_
    refine (alike_optional (alike_exprAt hctx ty) value).bind fun _ _ h => ?_
    exact .ite .rfl rfl ⟨rfl, h⟩
  | none =>
    cases value with
    | none => rfl
    | some value =>
      refine (alike_exprAlone hctx value).bind fun _ _ h => ?_
      exact .ite (by rw [h.ty_eq]) rfl ⟨h.ty_eq, .some h⟩

theorem alike_returnValue (hctx : ctx.Alike ρ ctx') (value : Option Expr) (span : Span) :
    SameOutcome g (Option.Rel (Typed.Expr.Alike g ρ)) (returnValue ctx value span)
      (returnValue ctx' (value.map (Expr.respan g)) (g span)) := by
  unfold returnValue
  rw [enclosingSignature?_eq hctx]
  cases ctx'.enclosingSignature? with
  | none => rfl
  | some signature =>
    cases value with
    | none =>
      cases hvoid : signature.returnType.isVoid with
      | true => simp [hvoid, SameOutcome]
      | false =>
        simp only [hvoid, Option.map_none]
        rfl
    | some value =>
      cases hvoid : signature.returnType.isVoid with
      | true =>
        simp only [hvoid, Option.map_some, Expr.span_respan]
        rfl
      | false =>
        simp only [hvoid, Option.map_some]
        exact (alike_exprAt hctx signature.returnType value).bind fun _ _ h => .some h

theorem alike_assignment (hctx : ctx.Alike ρ ctx') (target value : Expr) :
    SameOutcome g (Typed.Expr.Alike.Both g ρ) (assignment ctx target value)
      (assignment ctx' (target.respan g) (value.respan g)) := by
  refine (Expr.alike_check hctx target).bind fun target target' htarget => ?_
  refine .ite (by rw [htarget.isPlaceIn_eq hctx]) (htarget.fault _) ?_
  rw [Typed.Expr.readOnlyContainer?, Typed.Expr.readOnlyContainer?, htarget.container?_eq,
    htarget.ty_eq]
  cases target'.container?.filter (·.protection?.isSome) with
  | some _ => exact htarget.fault _
  | none => exact (alike_exprAt hctx target'.ty value).bind fun _ _ h => ⟨htarget, h⟩

theorem alike_loopControl (inLoop : Bool) (keyword : String) (span : Span) :
    SameOutcome g (fun _ _ => True) (loopControl inLoop keyword span)
      (loopControl inLoop keyword (g span)) :=
  .ite .rfl trivial rfl

theorem stretch?_respan (stmts : List Stmt) :
    stretch? (Stmt.respanAll g stmts) = (stretch? stmts).map g := by
  cases stmts with
  | nil => rfl
  | cons first rest =>
    have hlast : ((rest.map (Stmt.respan g)).getLast?.getD (first.respan g)) =
        (rest.getLast?.getD first).respan g := by
      rw [List.getLast?_map, Option.getD_map]
    rw [Stmt.respanAll_eq, List.map_cons, stretch?, stretch?, hlast, Stmt.span_respan,
      Stmt.span_respan, ← g.combine, Option.map_some]

end Typing

/-! ### Statements -/

namespace Typed.Stmt

mutual

theorem Alike.alwaysExits_eq {stmt stmt' : Stmt} (h : stmt.Alike g ρ stmt') :
    stmt.alwaysExits = stmt'.alwaysExits := by
  cases h with
  | block _ hstmts => simp only [alwaysExits, someAlwaysExits_eq hstmts]
  | conditional _ _ hthen helse =>
    cases helse with
    | none => rfl
    | some helse => simp only [alwaysExits, alwaysExits_eq hthen, alwaysExits_eq helse]
  | _ => rfl

theorem Alike.someAlwaysExits_eq {stmts stmts' : List Stmt}
    (h : List.Forall₂ (Stmt.Alike g ρ) stmts stmts') :
    someAlwaysExits stmts = someAlwaysExits stmts' := by
  cases h with
  | nil => rfl
  | cons hstmt hrest => simp only [someAlwaysExits, alwaysExits_eq hstmt, someAlwaysExits_eq hrest]

end

end Typed.Stmt

namespace Stmt

open Check.Alike (attempt)

mutual

/-- A statement is checked in the same way with other spans. -/
theorem alike_check (hρ : PairsOff ρ) (inLoop : Bool) (stmt : Stmt) :
    Check.Alike g ρ (Typed.Stmt.Alike g ρ) (stmt.check inLoop) ((stmt.respan g).check inLoop) := by
  cases stmt with
  | block stmts span =>
    exact (Check.Alike.inScope .none (alike_checkBlock hρ inLoop stmts)).bind fun _ _ h =>
      .pure (.block span h)
  | binding ty ident value span =>
    refine Check.Alike.context.bind fun ctx ctx' hctx => ?_
    refine (attempt (Typing.alike_bindingParts hctx ty ident value span)).bind ?_
    rintro ⟨ty, value⟩ ⟨ty', value'⟩ ⟨hty, hvalue⟩
    cases hty
    exact (Check.Alike.declare hρ ident ty _).bind fun _ _ hid =>
      .pure (.binding span hid hvalue)
  | expression value =>
    refine Check.Alike.context.bind fun ctx ctx' hctx => ?_
    exact (attempt (Typing.alike_exprAlone hctx value)).bind fun _ _ h => .pure (.expression h)
  | ret value span =>
    refine Check.Alike.context.bind fun ctx ctx' hctx => ?_
    exact (attempt (Typing.alike_returnValue hctx value span)).bind fun _ _ h =>
      .pure (.ret span h)
  | assign target value span =>
    refine Check.Alike.context.bind fun ctx ctx' hctx => ?_
    exact (attempt (Typing.alike_assignment hctx target value)).bind fun _ _ h =>
      .pure (.assign span h.1 h.2)
  | conditional condition body elseBody _ | whileLoop condition body elseBody _ =>
    refine Check.Alike.context.bind fun ctx ctx' hctx => ?_
    refine (attempt (Typing.alike_exprAt hctx .bool condition)).bind fun _ _ hcondition => ?_
    refine (Check.Alike.inScope .none (alike_check hρ _ body)).bind fun _ _ hbody => ?_
    refine (alike_checkElse hρ inLoop elseBody).bind fun _ _ helse => .pure ?_
    constructor
    exacts [hcondition, hbody, helse]
  | breakLoop span | continueLoop span =>
    refine (attempt (Typing.alike_loopControl inLoop _ span)).bind fun _ _ _ => .pure ?_
    constructor
  | yield value span =>
    refine Check.Alike.context.bind fun ctx ctx' hctx => ?_
    exact (attempt (Typing.alike_optional (Typing.alike_exprAlone hctx) value)).bind fun _ _ h =>
      .pure (.yield span h)

theorem alike_checkBlock (hρ : PairsOff ρ) (inLoop : Bool) (stmts : List Stmt) :
    Check.Alike g ρ (List.Forall₂ (Typed.Stmt.Alike g ρ)) (checkBlock inLoop stmts)
      (checkBlock inLoop (respanAll g stmts)) := by
  cases stmts with
  | nil =>
    exact .pure .nil
  | cons stmt rest =>
    have hrest := alike_checkAll hρ inLoop rest
    have hblock := alike_checkBlock hρ inLoop rest
    refine (alike_check hρ inLoop stmt).bind fun stmt stmt' hstmt => ?_
    rw [hstmt.alwaysExits_eq]
    cases stmt'.alwaysExits with
    | true =>
      simp only [Typing.stretch?_respan, if_true]
      cases Typing.stretch? rest with
      | none => exact .pure (.cons hstmt .nil)
      | some span =>
        exact (Check.Alike.warn span).bind fun _ _ _ => hrest.bind fun _ _ h =>
          .pure (.cons hstmt (.cons (.deadCode span h) .nil))
    | false => exact hblock.bind fun _ _ h => .pure (.cons hstmt h)

theorem alike_checkAll (hρ : PairsOff ρ) (inLoop : Bool) (stmts : List Stmt) :
    Check.Alike g ρ (List.Forall₂ (Typed.Stmt.Alike g ρ)) (checkAll inLoop stmts)
      (checkAll inLoop (respanAll g stmts)) := by
  cases stmts with
  | nil =>
    exact .pure .nil
  | cons stmt rest =>
    exact (alike_check hρ inLoop stmt).bind fun _ _ hstmt =>
      (alike_checkAll hρ inLoop rest).bind fun _ _ hrest => .pure (.cons hstmt hrest)

theorem alike_checkElse (hρ : PairsOff ρ) (inLoop : Bool) (elseBody : Option Stmt) :
    Check.Alike g ρ (Option.Rel (Typed.Stmt.Alike g ρ)) (checkElse inLoop elseBody)
      (checkElse inLoop (respanElse g elseBody)) := by
  cases elseBody with
  | none =>
    exact .pure .none
  | some stmt =>
    exact (Check.Alike.inScope .none (alike_check hρ inLoop stmt)).bind fun _ _ h =>
      .pure (.some h)

end

end Stmt

/-! ### Functions -/

namespace Typing

theorem alike_params (hρ : PairsOff ρ) (params : List Param) (tys : List Ty) :
    Check.Alike g ρ (List.Forall₂ ρ) (Typing.params (params.zip tys))
      (Typing.params ((params.map (Param.respan g)).zip tys)) := by
  induction params generalizing tys with
  | nil => exact .pure .nil
  | cons param _ ih =>
    cases tys with
    | nil => exact .pure .nil
    | cons ty tys =>
      exact (Check.Alike.declare hρ param.name ty _).bind fun _ _ hid =>
        (ih tys).bind fun _ _ hrest => .pure (.cons hid hrest)

theorem alike_body (hρ : PairsOff ρ) (returnType : Ty) (body : FunctionBody) :
    Check.Alike g ρ (Typed.Body.Alike g ρ) (Typing.body returnType body)
      (Typing.body returnType (body.respan g)) := by
  cases body with
  | empty _ => exact .pure .empty
  | block stmts span =>
    exact (Check.Alike.inScope .none (Stmt.alike_checkBlock hρ false stmts)).bind fun _ _ h =>
      .pure (.block span h)
  | expression value =>
    refine Check.Alike.context.bind fun ctx ctx' hctx => ?_
    exact (Check.Alike.attempt (alike_exprAt hctx returnType value)).bind fun _ _ h =>
      .pure (.expression h)

/-- A function is checked alike wherever it stands. -/
theorem alike_function (hρ : PairsOff ρ) {id id' : SymbolId} (hid : ρ id id')
    (decl : FunctionDecl) :
    Check.Alike g ρ (Typed.Function.Alike g ρ) (function id decl)
      (function id' (decl.respan g)) := by
  refine (Check.Alike.attempt (Declarations.alike_libraryOf decl.modifiers none)).bind ?_
  rintro library _ rfl
  refine Check.Alike.context.bind fun ctx ctx' hctx => ?_
  rw [(hctx.symbolAt hid).signature?_eq]
  cases (ctx'.symbolAt id').signature? with
  | none => exact .refuse _ _
  | some signature =>
    have hparts : Check.Alike g ρ (fun r r' => List.Forall₂ ρ r.1 r'.1 ∧ r.2.Alike g ρ r'.2)
        (paramsAndBody decl signature) (paramsAndBody (decl.respan g) signature) :=
      (alike_params hρ decl.params signature.paramTypes).bind fun _ _ hparams =>
        (alike_body hρ signature.returnType decl.body).bind fun _ _ hbody =>
          .pure ⟨hparams, hbody⟩
    exact (Check.Alike.inScope (.some hid) hparts).bind fun _ _ h =>
      .pure ⟨hid, rfl, rfl, h.1, rfl, h.2⟩

/-- A declaration is checked in the same way wherever it stands. -/
theorem alike_decl (hρ : PairsOff ρ) {id id' : SymbolId} (hid : ρ id id') (top : TopLevel) :
    Check.Alike .forget ρ (Typed.Decl.Alike .forget ρ) (decl id top) (decl id' top.bare) := by
  cases top with
  | struct _ => exact .pure (.struct _ hid)
  | enum _ => exact .pure (.enum _ hid)
  | function decl =>
    exact (alike_function hρ hid decl).bind fun _ _ h => .pure (.function h)

end Typing

end Laye
