import Laye.Proofs.Typing.Scoping
import Laye.Proofs.Typing.Writing

/-!
# What is left by statements along the way

Checking adds a symbol for each variable and notes the span of all dead code, in the order of the
text. Both are read off the statements of the typed tree: each statement leaves something of its own
(`own`), and a relation between what is known before and after (`Check.Gathers`) says that this is
what was added. If declared variables and warnings do what `own` says of them, then so does the
check of every statement (`Check.Gathers.stmt`) and of every declaration (`Check.Gathers.decl`). -/

namespace Laye

namespace Typed.Stmt

theorem nodes_conditional (condition : Expr) (body : Stmt) (elseBody : Option Stmt) (span : Span) :
    (conditional condition body elseBody span).nodes =
      conditional condition body elseBody span :: (body.nodes ++ nodesAll elseBody.toList) := by
  conv_lhs => unfold nodes
  cases elseBody <;> simp [nodesAll]

theorem nodes_whileLoop (condition : Expr) (body : Stmt) (elseBody : Option Stmt) (span : Span) :
    (whileLoop condition body elseBody span).nodes =
      whileLoop condition body elseBody span :: (body.nodes ++ nodesAll elseBody.toList) := by
  conv_lhs => unfold nodes
  cases elseBody <;> simp [nodesAll]

theorem nodesAll_deadCode (t : Stmt) (dead : List Stmt) (span : Span) :
    nodesAll [t, deadCode dead span] = t.nodes ++ deadCode dead span :: nodesAll dead := by
  have hdead : (deadCode dead span).nodes = deadCode dead span :: nodesAll dead := by
    rfl
  simp only [nodesAll, hdead, List.append_nil]

/-- Whether the statement is neither a declared variable nor dead code. -/
def isPlain : Stmt → Bool
  | .binding _ _ _ | .deadCode _ _ => false
  | _ => true

end Typed.Stmt

/-- What declared variables and warnings add is what `own` says, whatever scopes are opened and
closed around them. A variable without a value stands for a parameter too. -/
structure Check.Gathers {γ : Type} (own : Typed.Stmt → List γ)
    (R : Progress → Progress → List γ → Prop) : Prop where
  plain : ∀ t : Typed.Stmt, t.isPlain = true → own t = []
  refl : ∀ st, R st st []
  append : ∀ {st st' st'' : Progress} {xs ys : List γ}, R st st' xs → R st' st'' ys →
    R st st'' (xs ++ ys)
  inScope : ∀ {st inner : Progress} {function : Option SymbolId} {xs : List γ},
    R { st with scopes := st.scopes.push function } inner xs →
      R st { inner with scopes := inner.scopes.pop } xs
  declare : ∀ {st st' : Progress} {ident : Ident} {ty : Ty} {duplicate : Problem} {id : SymbolId}
    (value : Option Typed.Expr) (span : Span), Check.declare ident ty duplicate st = .ok (id, st') →
      R st st' (own (.binding id value span))
  warn : ∀ (st : Progress) (dead : List Typed.Stmt) (span : Span),
    R st { st with unreachable := st.unreachable ++ [span] } (own (.deadCode dead span))

namespace Check.Gathers

open Typed.Stmt (nodes nodesAll)

variable {γ : Type} {own : Typed.Stmt → List γ} {R : Progress → Progress → List γ → Prop}

theorem within (h : Gathers own R) {α : Type} {step : Check α} {xs : α → List γ}
    (hstep : ∀ {st st' : Progress} {a : α}, step st = .ok (a, st') → R st st' (xs a))
    {function : Option SymbolId} {st st' : Progress} {a : α}
    (hrun : Check.inScope function step st = .ok (a, st')) : R st st' (xs a) := by
  obtain ⟨_, hinner, rfl⟩ := inScope_eq_ok hrun
  exact h.inScope (hstep hinner)

mutual

/-- What checking a statement adds is read off its typed statements. -/
theorem stmt (h : Gathers own R) : (inLoop : Bool) → (stmt : Stmt) → {st st' : Progress} →
    {t : Typed.Stmt} → stmt.check inLoop st = .ok (t, st') → R st st' (t.nodes.flatMap own)
  | inLoop, .block stmts _, _, _, _, hrun => by
    obtain ⟨_, _, hscope, hrun⟩ := bind_eq_ok.mp hrun
    cases hrun
    unfold nodes
    rw [List.flatMap_cons, h.plain _ rfl]
    exact h.within (h.block inLoop stmts) hscope
  | _, .binding _ _ _ _, _, _, _, hrun => by
    obtain ⟨⟨_, _⟩, -, hrun⟩ := attempt_bind_eq_ok hrun
    obtain ⟨_, _, hdeclare, hrun⟩ := bind_eq_ok.mp hrun
    cases hrun
    unfold nodes
    rw [List.flatMap_singleton]
    exact h.declare _ _ hdeclare
  | inLoop, .conditional _ body elseBody _, _, _, _, hrun
  | inLoop, .whileLoop _ body elseBody _, _, _, _, hrun => by
    obtain ⟨_, -, hrun⟩ := attempt_bind_eq_ok hrun
    obtain ⟨_, _, hbody, hrun⟩ := bind_eq_ok.mp hrun
    obtain ⟨_, _, helse, hrun⟩ := bind_eq_ok.mp hrun
    cases hrun
    simp only [Typed.Stmt.nodes_conditional, Typed.Stmt.nodes_whileLoop]
    rw [List.flatMap_cons, h.plain _ rfl, List.nil_append, List.flatMap_append]
    exact h.append (h.within (h.stmt _ body) hbody) (h.orElse inLoop elseBody helse)
  | _, .expression _, _, _, _, hrun | _, .ret _ _, _, _, _, hrun | _, .assign _ _ _, _, _, _, hrun
  | _, .yield _ _, _, _, _, hrun => by
    obtain ⟨_, -, hrun⟩ := attempt_bind_eq_ok hrun
    cases hrun
    unfold nodes
    rw [List.flatMap_singleton, h.plain _ rfl]
    exact h.refl _
  | _, .breakLoop _, _, _, _, hrun | _, .continueLoop _, _, _, _, hrun => by
    obtain ⟨rfl, rfl⟩ := Stmt.loopControl_eq_ok hrun
    unfold nodes
    rw [List.flatMap_singleton, h.plain _ rfl]
    exact h.refl _

theorem block (h : Gathers own R) : (inLoop : Bool) → (stmts : List Stmt) → {st st' : Progress} →
    {ts : List Typed.Stmt} → Stmt.checkBlock inLoop stmts st = .ok (ts, st') →
    R st st' ((nodesAll ts).flatMap own)
  | _, [], _, _, _, hrun => by
    cases hrun
    exact h.refl _
  | inLoop, stmt :: rest, _, _, _, hrun => by
    obtain ⟨t, _, hstmt, hrun⟩ := bind_eq_ok.mp hrun
    have hfirst := h.stmt inLoop stmt hstmt
    split at hrun
    · cases hspan : Typing.stretch? rest with
      | none =>
        rw [hspan] at hrun
        cases hrun
        unfold nodesAll nodesAll
        rw [List.append_nil]
        exact hfirst
      | some _ =>
        -- the warning about the dead code comes before those in it
        rw [hspan] at hrun
        obtain ⟨_, _, hwarn, hrun⟩ := bind_eq_ok.mp hrun
        cases hwarn
        obtain ⟨_, _, hdead, hrun⟩ := bind_eq_ok.mp hrun
        cases hrun
        rw [Typed.Stmt.nodesAll_deadCode, List.flatMap_append, List.flatMap_cons]
        exact h.append hfirst (h.append (h.warn _ _ _) (h.all inLoop rest hdead))
    · obtain ⟨_, _, hrest, hrun⟩ := bind_eq_ok.mp hrun
      cases hrun
      unfold nodesAll
      rw [List.flatMap_append]
      exact h.append hfirst (h.block inLoop rest hrest)

theorem all (h : Gathers own R) : (inLoop : Bool) → (stmts : List Stmt) → {st st' : Progress} →
    {ts : List Typed.Stmt} → Stmt.checkAll inLoop stmts st = .ok (ts, st') →
    R st st' ((nodesAll ts).flatMap own)
  | _, [], _, _, _, hrun => by
    cases hrun
    exact h.refl _
  | inLoop, stmt :: rest, _, _, _, hrun => by
    obtain ⟨t, _, hstmt, hrun⟩ := bind_eq_ok.mp hrun
    obtain ⟨_, _, hrest, hrun⟩ := bind_eq_ok.mp hrun
    cases hrun
    unfold nodesAll
    rw [List.flatMap_append]
    exact h.append (h.stmt inLoop stmt hstmt) (h.all inLoop rest hrest)

theorem orElse (h : Gathers own R) : (inLoop : Bool) → (stmt : Option Stmt) →
    {st st' : Progress} → {t : Option Typed.Stmt} → Stmt.checkElse inLoop stmt st = .ok (t, st') →
    R st st' ((nodesAll t.toList).flatMap own)
  | _, none, _, _, _, hrun => by
    cases hrun
    exact h.refl _
  | inLoop, some stmt, _, _, _, hrun => by
    obtain ⟨t, _, hstmt, hrun⟩ := bind_eq_ok.mp hrun
    cases hrun
    unfold Option.toList nodesAll nodesAll
    rw [List.append_nil]
    exact h.within (h.stmt inLoop stmt) hstmt

end

variable (h : Gathers own R) {st st' : Progress}
include h

theorem params {given : List (Param × Ty)} {ids : List SymbolId}
    (hrun : Typing.params given st = .ok (ids, st')) :
    R st st' (ids.flatMap fun id => own (.binding id none .nowhere)) := by
  induction given generalizing st ids with
  | nil =>
    cases hrun
    exact h.refl _
  | cons _ _ ih =>
    obtain ⟨_, _, hdeclare, hrun⟩ := bind_eq_ok.mp hrun
    obtain ⟨_, _, hrest, hrun⟩ := bind_eq_ok.mp hrun
    cases hrun
    exact h.append (h.declare none .nowhere hdeclare) (ih hrest)

theorem body {ty : Ty} {b : FunctionBody} {t : Typed.Body}
    (hrun : Typing.body ty b st = .ok (t, st')) : R st st' (t.stmts.flatMap own) := by
  cases b with
  | empty _ =>
    cases hrun
    exact h.refl _
  | block stmts _ =>
    obtain ⟨_, _, hscope, hrun⟩ := bind_eq_ok.mp hrun
    cases hrun
    exact h.within (h.block false stmts) hscope
  | expression _ =>
    obtain ⟨_, -, hrun⟩ := attempt_bind_eq_ok hrun
    cases hrun
    exact h.refl _

theorem decl {id : SymbolId} {top : TopLevel} {d : Typed.Decl}
    (hrun : Typing.decl id top st = .ok (d, st')) :
    R st st' (d.function?.toList.flatMap fun f =>
      (f.params.flatMap fun id => own (.binding id none .nowhere)) ++
        f.body.stmts.flatMap own) := by
  cases top with
  | struct decl | enum _ =>
    cases hrun
    exact h.refl _
  | function _ =>
    obtain ⟨f, _, hf, hrun⟩ := bind_eq_ok.mp hrun
    cases hrun
    obtain ⟨_, _, _, t, _, -, hinner, rfl, rfl⟩ := Typing.function_eq_ok hf
    obtain ⟨_, hparams, hbody⟩ := Typing.paramsAndBody_eq_ok hinner
    simp only [Typed.Decl.function?, Option.toList_some, List.flatMap_singleton]
    exact h.inScope (h.append (h.params hparams) (h.body hbody))

end Check.Gathers

end Laye
