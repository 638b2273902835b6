import Laye.Proofs.Typing.Declarations
import Laye.Proofs.Typing.Weakening

/-!
# What expressions take from their context

`Typed.Expr.Uses P Q` says of an expression that it takes the values only of symbols that satisfy
`P` and casts only to types that satisfy `Q`. Conversions load nothing and cast to the type that is
asked for or to one that can always be written down, and the rules of the checker add no cast of
their own (`Context.Supplies.rules`). So a checked expression loads only what names stand for and
casts only to types that its context supplies. -/

namespace Laye

namespace Typed.Expr

mutual

/-- The expression takes the values only of symbols that satisfy `P`, and casts only to types that
satisfy `Q`. -/
@[simp] def Uses (P : SymbolId → Prop) (Q : Ty → Prop) : Expr → Prop
  | .load _ _ symbol => P symbol
  | .cast ty _ inner => Q ty ∧ inner.Uses P Q
  | .materialize _ _ inner | .unary _ _ _ inner | .addressOf _ _ inner | .dereference _ _ inner
  | .field _ _ inner _ _ => inner.Uses P Q
  | .invoke _ _ _ args => UsesAll P Q args
  | .binary _ _ _ left right | .index _ _ left right => left.Uses P Q ∧ right.Uses P Q
  | .integer _ _ _ _ | .float _ _ _ | .bool _ _ _ | .string _ _ _ => True

@[simp] def UsesAll (P : SymbolId → Prop) (Q : Ty → Prop) : List Expr → Prop
  | [] => True
  | e :: es => e.Uses P Q ∧ UsesAll P Q es

end

mutual

theorem Uses.imp {P P' : SymbolId → Prop} {Q Q' : Ty → Prop} (hP : ∀ id, P id → P' id)
    (hQ : ∀ ty, Q ty → Q' ty) : (e : Expr) → e.Uses P Q → e.Uses P' Q'
  | .integer _ _ _ _, _ | .float _ _ _, _ | .bool _ _ _, _ | .string _ _ _, _ => by simp
  | .load _ _ symbol, h => hP symbol h
  | .cast ty _ inner, h => ⟨hQ ty h.1, Uses.imp hP hQ inner h.2⟩
  | .materialize _ _ inner, h | .unary _ _ _ inner, h | .addressOf _ _ inner, h
  | .dereference _ _ inner, h | .field _ _ inner _ _, h => Uses.imp hP hQ inner h
  | .invoke _ _ _ args, h => UsesAll.imp hP hQ args h
  | .binary _ _ _ left right, h | .index _ _ left right, h => by
    exact ⟨Uses.imp hP hQ left h.1, Uses.imp hP hQ right h.2⟩

theorem UsesAll.imp {P P' : SymbolId → Prop} {Q Q' : Ty → Prop} (hP : ∀ id, P id → P' id)
    (hQ : ∀ ty, Q ty → Q' ty) : (es : List Expr) → UsesAll P Q es → UsesAll P' Q' es
  | [], _ => by simp
  | e :: es, h => ⟨Uses.imp hP hQ e h.1, UsesAll.imp hP hQ es h.2⟩

end

theorem UsesAll.of_mem {P : SymbolId → Prop} {Q : Ty → Prop} {args : List Expr}
    (h : UsesAll P Q args) {arg : Expr} (harg : arg ∈ args) : arg.Uses P Q := by
  induction args with
  | nil => cases harg
  | cons _ _ ih =>
    rcases List.mem_cons.mp harg with rfl | harg
    · exact h.1
    · exact ih h.2 harg

/-! ### Conversions -/

variable {P : SymbolId → Prop} {Q : Ty → Prop} {e e' : Expr} {ty : Ty}

theorem Uses.retype (h : e.Uses P Q) (hty : Q ty) : (e.retype ty).Uses P Q := by
  cases e with
  | cast _ _ _ =>
    exact ⟨hty, h.2⟩
  | integer _ _ _ _ | float _ _ _ | bool _ _ _ | string _ _ _ => simp [Expr.retype]
  | _ => simpa only [Uses, Expr.retype] using h

theorem Uses.castTo (h : e.Uses P Q) (hty : Q ty) : (e.castTo ty).Uses P Q := by
  exact ⟨hty, h⟩

theorem uses_of_literalAs (h : e.literalAs ty = .ok e') : e'.Uses P Q := by
  obtain ⟨_, _, _, _, rfl, rfl⟩ := literalAs_eq_ok h
  simp

theorem Uses.settle (h : e.Uses P Q) (hsettles : Settles Q e e') : e'.Uses P Q := by
  obtain ⟨hadjusts, ⟨rfl, -⟩ | hty⟩ := hsettles
  · exact h
  · cases hadjusts with
    | same => exact h
    | literal _ _ hliteral => exact uses_of_literalAs hliteral
    | address _ hliteral => exact (uses_of_literalAs hliteral).castTo hty
    | toFloat =>
      rw [ty_literalToFloat] at hty
      unfold Expr.literalToFloat
      split
      · simp
      · exact h.castTo hty
    | retype =>
      rw [ty_retype] at hty
      exact h.retype hty
    | cast => exact h.castTo hty
    | materialize => simpa only [materializeTo, Uses] using h

end Typed.Expr

/-! ### Expressions -/

namespace Context

/-- A name stands for the symbol, which is no type. -/
def MayLoad (ctx : Context) (id : SymbolId) : Prop :=
  (∃ name, ctx.scopes.lookup name = some id) ∧ (ctx.symbolAt id).kind.isType = false

/-- The property holds of the types that can be written down in basic ones, and of those of the
parameters of functions. -/
structure Supplies (ctx : Context) (Q : Ty → Prop) : Prop where
  closed : Ty.Closed Q
  params : ∀ name id signature, ctx.callee? name = some (id, signature) →
    ∀ ty ∈ signature.paramTypes, Q ty

open Typed.Expr (Uses UsesAll) in
/-- The rules of the checker take values of what names stand for, and cast only to what the context
supplies. -/
theorem Supplies.rules {ctx : Context} {Q : Ty → Prop} (h : ctx.Supplies Q) : Typing.Rules ctx Q
    (fun _ t => t.Uses ctx.MayLoad Q) (fun _ t => t.Uses ctx.MayLoad Q) where
  chosen ty hty := by
    simp only [Ty.chosen, Ty.defaults, List.cons_append, List.nil_append, List.mem_cons,
      List.not_mem_nil, or_false] at hty
    rcases hty with rfl | rfl | rfl | rfl | rfl | rfl | rfl | rfl | rfl
    case inr.inr.inr.inr.inr.inr.inr.inr => exact h.closed.buffer _ _ (h.closed.basic _ rfl)
    all_goals exact h.closed.basic _ rfl
  params hcallee := h.params _ _ _ hcallee
  operand {_ t} _ hinteger := by
    refine h.closed.basic _ ?_
    cases hty : t.ty with
    | int | sizedInt => rfl
    | _ => simp [hty, Ty.isInteger] at hinteger
  settle := Uses.settle
  place ht _ := ht
  loosen ht := ht
  integer _ _ _ := by simp
  float _ _ := by simp
  bool _ _ := by simp
  string _ _ := by simp
  negatedInteger _ _ := by simp
  negatedFloat _ _ := by simp
  name hid hkind := by
    exact ⟨⟨_, hid⟩, hkind⟩
  variant _ _ _ _ := by simp
  invoke _ hargs _ hmatch := by
    clear hmatch
    simp only [Uses]
    induction hargs with
    | nil => simp
    | cons hfirst _ ih =>
      exact ⟨hfirst, ih⟩
  unary _ _ hoperand _ _ := by simpa only [Uses] using hoperand
  addressOf _ hoperand _ := by simpa only [Uses] using hoperand
  dereference _ hoperand _ := by simpa only [Uses] using hoperand
  binary _ hleft hright _ _ := by simpa only [Uses] using ⟨hleft, hright⟩
  index _ htarget hi _ _ := by simpa only [Uses] using ⟨htarget, hi⟩
  field _ htarget _ _ _ := by
    unfold Typing.throughPointer
    split
    · simpa only [Uses] using htarget
    · exact htarget

end Context

end Laye
