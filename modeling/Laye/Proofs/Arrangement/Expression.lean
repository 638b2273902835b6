import Laye.Proofs.Arrangement.Alike

/-!
# Checking expressions in another place

An expression is checked in the same way wherever it stands: in contexts that are alike, the check
of an expression and that of the same expression without spans both fail or give typed expressions
that are alike (`Expr.alike_check`). Each conversion and each rule of the checker keeps likeness.
-/

namespace Laye

variable {g : SpanMap} {ρ : SymbolId → SymbolId → Prop}

namespace Typed.Expr.Alike

variable {e e' left left' right right' : Typed.Expr}

/-! ### Conversions -/

section

variable (h : e.Alike g ρ e')
include h

variable (ty target : Ty)

theorem castTo : (e.castTo ty).Alike g ρ (e'.castTo ty) := by
  rw [Expr.castTo, Expr.castTo, h.span_eq]
  exact .cast ty _ h

theorem retype : (e.retype ty).Alike g ρ (e'.retype ty) := by
  cases h <;> constructor <;> assumption

theorem literalAs : SameOutcome g (Alike g ρ) (e.literalAs target) (e'.literalAs target) := by
  cases h with
  | integer _ span magnitude negative =>
    simp only [Expr.literalAs]
    cases literalProblem? magnitude negative target with
    | some _ => rfl
    | none => exact .integer target span magnitude negative
  | _ => rfl

theorem literalToFloat : (e.literalToFloat target).Alike g ρ (e'.literalToFloat target) := by
  cases h with
  | integer _ span _ _ => exact .float target span _
  | _ =>
    refine castTo ?_ target
    constructor <;> assumption

/-- Expressions that are alike are converted alike. -/
theorem convertTo : SameOutcome g (Alike g ρ) (e.convertTo target) (e'.convertTo target) := by
  simp only [Expr.convertTo, h.ty_eq]
  cases Conversion.between e'.ty target with
  | none => exact h.fault _
  | some conversion =>
    cases conversion with
    | keep => exact h
    | literal => exact h.literalAs target
    | address => exact (h.literalAs _).bind fun a b hab => hab.castTo target
    | toFloat => exact h.literalToFloat target
    | retype => exact h.retype target
    | cast => exact h.castTo target
    | materialize =>
      rw [Expr.materializeTo, Expr.materializeTo, h.span_eq]
      exact .materialize target _ h

theorem withDefaultType : SameOutcome g (Alike g ρ) e.withDefaultType e'.withDefaultType := by
  simp only [Expr.withDefaultType, h.ty_eq]
  split
  · exact h.literalAs _
  · exact h.retype _
  · exact h.retype _
  · exact h.retype _
  · exact h

theorem promoted : SameOutcome g (Alike g ρ) e.promoted e'.promoted := by
  simp only [Expr.promoted, h.ty_eq]
  split
  · exact h.retype _
  · split
    · exact h.castTo _
    · exact h
  · split
    · exact h.castTo _
    · exact h
  · exact h.fault _
  · exact h.withDefaultType

theorem toFloat : SameOutcome g (Alike g ρ) e.toFloat e'.toFloat := by
  simp only [Expr.toFloat, h.ty_eq]
  split
  · exact h
  · exact h.retype _
  · exact h.literalToFloat _
  · exact h.castTo _
  · exact h.castTo _
  · exact h.castTo _
  · exact h.fault _

theorem widenTo : (e.widenTo ty).Alike g ρ (e'.widenTo ty) := by
  simp only [Expr.widenTo, h.ty_eq]
  split
  · exact h
  · exact h.castTo ty

end

/-- The operands of an operator are alike, each to its own. -/
def Both (g : SpanMap) (ρ : SymbolId → SymbolId → Prop) (p p' : Typed.Expr × Typed.Expr) : Prop :=
  p.1.Alike g ρ p'.1 ∧ p.2.Alike g ρ p'.2

section

variable (hleft : left.Alike g ρ left') (hright : right.Alike g ρ right')
include hleft hright

theorem faultBoth (problem : Problem) :
    SameOutcome g (Both g ρ) (.error (⟨left.span.combine right.span, problem⟩ : Fault))
      (.error ⟨left'.span.combine right'.span, problem⟩) := by
  rw [hleft.span_eq, hright.span_eq, ← g.combine]
  rfl

theorem unifyConcrete :
    SameOutcome g (Both g ρ) (left.unifyConcrete right) (left'.unifyConcrete right') := by
  simp only [Expr.unifyConcrete, hleft.ty_eq, hright.ty_eq]
  cases commonType left'.ty right'.ty with
  | error problem => exact hleft.faultBoth hright problem
  | ok ty => exact ⟨hleft.widenTo ty, hright.widenTo ty⟩

/-- Operands that are alike are unified alike. -/
theorem unify : SameOutcome g (Both g ρ) (left.unify right) (left'.unify right') := by
  simp only [Expr.unify, Expr.unify.notNumeric, hleft.ty_eq, hright.ty_eq]
  split
  · exact hleft.toFloat.bind fun _ _ hl => hright.toFloat.bind fun _ _ hr => ⟨hl, hr⟩
  · split
    · exact (hleft.literalAs _).bind fun _ _ hl => (hright.literalAs _).bind fun _ _ hr => ⟨hl, hr⟩
    · split
      · exact (hleft.literalAs _).bind fun _ _ hl => ⟨hl, hright⟩
      · exact hleft.faultBoth hright _
    · split
      · exact (hright.literalAs _).bind fun _ _ hr => ⟨hleft, hr⟩
      · exact hleft.faultBoth hright _
    · split
      · exact hleft.faultBoth hright _
      · exact hleft.unifyConcrete hright

end

/-! ### Places -/

theorem container?_eq {e e' : Typed.Expr} (h : e.Alike g ρ e') : e.container? = e'.container? := by
  cases h with
  | dereference _ _ hinner => exact congrArg some hinner.ty_eq
  | index _ _ htarget _ => exact congrArg some htarget.ty_eq
  | field _ _ _ _ htarget =>
    simp only [Expr.container?, container?_eq htarget]
  | _ => rfl

variable {ctx ctx' : Context}

/-- Of expressions that are alike, both are places or neither is. -/
theorem isPlace_eq (hctx : ctx.Alike ρ ctx') {e e' : Typed.Expr} (h : e.Alike g ρ e') :
    e.isPlace ctx.isBinding = e'.isPlace ctx'.isBinding := by
  cases h with
  | load _ _ hid =>
    simp only [Expr.isPlace, Context.isBinding, (hctx.symbolAt hid).kind_eq]
  | index _ _ htarget _ =>
    simp only [Expr.isPlace, htarget.ty_eq, isPlace_eq hctx htarget]
  | field _ _ _ _ htarget =>
    simp only [Expr.isPlace, isPlace_eq hctx htarget]
  | _ => rfl

theorem isPlaceIn_eq (hctx : ctx.Alike ρ ctx') (h : e.Alike g ρ e') :
    e.isPlaceIn ctx = e'.isPlaceIn ctx' :=
  isPlace_eq hctx h

end Typed.Expr.Alike

/-! ### Rules of expressions -/

namespace Typing

open Typed.Expr.Alike (Both)

variable {ctx ctx' : Context} {e e' left left' right right' : Typed.Expr}

theorem alike_name (hctx : ctx.Alike ρ ctx') (ident : Ident) :
    SameOutcome g (Typed.Expr.Alike g ρ) (name ctx ident) (name ctx' (ident.respan g)) := by
  simp only [name, Ident.name_respan]
  rcases rel_cases (hctx.lookup ident.name) with ⟨hx, hy⟩ | ⟨_, _, hx, hy, hid⟩
  · rw [hx, hy]
    trivial
  · rw [hx, hy]
    simp only [(hctx.symbolAt hid).kind_eq, (hctx.symbolAt hid).ty_eq]
    split
    · trivial
    · exact .load _ _ hid

variable {args args' : List Typed.Expr}

theorem alike_arguments (hargs : List.Forall₂ (Typed.Expr.Alike g ρ) args args') (tys : List Ty) :
    SameOutcome g (List.Forall₂ (Typed.Expr.Alike g ρ)) (arguments tys args)
      (arguments tys args') := by
  induction hargs generalizing tys with
  | nil =>
    exact .nil
  | cons harg _ ih =>
    cases tys with
    | nil =>
      exact harg.promoted.bind fun _ _ harg => (ih []).bind fun _ _ hargs => .cons harg hargs
    | cons ty tys =>
      exact (harg.convertTo ty).bind fun _ _ harg =>
        (ih tys).bind fun _ _ hargs => .cons harg hargs

theorem alike_callee? (hctx : ctx.Alike ρ ctx') (name : String) :
    Option.Rel (fun r r' : SymbolId × Signature => ρ r.1 r'.1 ∧ r.2 = r'.2) (ctx.callee? name)
      (ctx'.callee? name) := by
  simp only [Context.callee?]
  rcases rel_cases (hctx.lookupGlobal name) with ⟨hx, hy⟩ | ⟨_, id', hx, hy, hid⟩
  · rw [hx, hy]
    exact .none
  · rw [hx, hy]
    simp only [(hctx.symbolAt hid).signature?_eq]
    cases (ctx'.symbolAt id').signature? with
    | none => exact .none
    | some _ => exact .some ⟨hid, rfl⟩

theorem alike_invoke (hctx : ctx.Alike ρ ctx') (target : Expr)
    (hargs : List.Forall₂ (Typed.Expr.Alike g ρ) args args') (span : Span) :
    SameOutcome g (Typed.Expr.Alike g ρ) (invoke ctx target args span)
      (invoke ctx' (target.respan g) args' (g span)) := by
  cases target with
  | name ident =>
    simp only [invoke, Expr.respan, Ident.name_respan]
    rcases rel_cases (alike_callee? hctx ident.name) with
      ⟨hx, hy⟩ | ⟨⟨id, signature⟩, ⟨id', signature'⟩, hx, hy, hid, hsignature⟩
    · rw [hx, hy]
      trivial
    · cases hsignature
      rw [hx, hy]
      simp only [hargs.length_eq]
      cases argumentCountProblem? ident.name signature args'.length with
      | some _ => trivial
      | none => exact (alike_arguments hargs _).bind fun _ _ hargs => .invoke _ _ hid hargs
  | _ => exact congrArg (Fault.mk · _) (Expr.span_respan g _)

theorem alike_negation (h : e.Alike g ρ e') (span : Span) :
    SameOutcome g (Typed.Expr.Alike g ρ) (negation e span) (negation e' (g span)) := by
  have hneg := fun ty => Typed.Expr.Alike.unary ty span .neg h
  cases h with
  | integer ty _ magnitude _ =>
    cases ty with
    | untypedInt _ => exact .integer _ span magnitude _
    | int signed | sizedInt signed _ =>
      cases signed with
      | false => trivial
      | true => exact hneg _
    | float | sizedFloat _ => exact hneg _
    | _ => trivial
  | float ty _ _ =>
    cases ty with
    | untypedFloat => exact .float _ span _
    | int signed | sizedInt signed _ =>
      cases signed with
      | false => trivial
      | true => exact hneg _
    | float | sizedFloat _ => exact hneg _
    | _ => trivial
  | _ =>
    simp only [negation, Typed.Expr.ty]
    split
    · trivial
    · trivial
    · exact hneg _
    · exact hneg _
    · exact hneg _
    · exact hneg _
    · trivial

theorem alike_unary (hctx : ctx.Alike ρ ctx') (op : UnaryOp) (h : e.Alike g ρ e')
    (span : Span) :
    SameOutcome g (Typed.Expr.Alike g ρ) (unary ctx op e span) (unary ctx' op e' (g span)) := by
  cases op with
  | neg => exact alike_negation h span
  | not => exact (h.convertTo .bool).bind fun _ _ h => .unary .bool span .not h
  | bitNot =>
    refine h.withDefaultType.bind fun a b h => ?_
    simp only [h.ty_eq]
    split
    · exact .unary _ span .bitNot h
    · exact h.fault _
  | addressOf =>
    simp only [unary, addressOf, h.isPlaceIn_eq hctx, h.ty_eq, Typed.Expr.addressAccess,
      h.container?_eq]
    split
    · exact .addressOf _ span h
    · exact h.fault _
  | dereference =>
    simp only [unary, dereference, h.ty_eq, hctx.expand_eq]
    split
    · exact .dereference _ span h
    · exact h.fault _

theorem alike_truthOperands (hleft : left.Alike g ρ left') (hright : right.Alike g ρ right') :
    SameOutcome g (Both g ρ) (truthOperands left right) (truthOperands left' right') :=
  (hleft.convertTo .bool).bind fun _ _ hl => (hright.convertTo .bool).bind fun _ _ hr => ⟨hl, hr⟩

theorem alike_comparisonOperands (hleft : left.Alike g ρ left') (hright : right.Alike g ρ right') :
    SameOutcome g (Both g ρ) (comparisonOperands left right) (comparisonOperands left' right') := by
  simp only [comparisonOperands, hleft.ty_eq, hright.ty_eq]
  split
  · exact alike_truthOperands hleft hright
  · split
    · exact ⟨hleft, hright⟩
    · exact hleft.unify hright

theorem alike_binary (op : BinaryOp) (hleft : left.Alike g ρ left')
    (hright : right.Alike g ρ right') (span : Span) :
    SameOutcome g (Typed.Expr.Alike g ρ) (binary op left right span)
      (binary op left' right' (g span)) := by
  unfold binary
  split
  · exact (alike_truthOperands hleft hright).bind fun _ _ h => .binary _ span op h.1 h.2
  · split
    · refine (alike_comparisonOperands hleft hright).bind fun a b h => ?_
      simp only [h.1.ty_eq]
      split
      · exact .binary _ span op h.1 h.2
      · trivial
    · refine (hleft.unify hright).bind fun a b h => ?_
      simp only [h.1.ty_eq]
      split
      · exact .binary _ span op h.1 h.2
      · trivial

theorem alike_indexOperand (h : e.Alike g ρ e') :
    SameOutcome g (Typed.Expr.Alike g ρ) (indexOperand e) (indexOperand e') := by
  simp only [indexOperand, h.ty_eq]
  split
  · exact h.convertTo _
  · split
    · exact h
    · exact h.fault _

section

variable (hctx : ctx.Alike ρ ctx')
include hctx

theorem elementType?_eq (ty : Ty) : elementType? ctx ty = elementType? ctx' ty := by
  cases ty <;> simp only [elementType?, hctx.expand_eq]

theorem alike_index {i i' : Typed.Expr} (h : e.Alike g ρ e') (hi : i.Alike g ρ i') (span : Span) :
    SameOutcome g (Typed.Expr.Alike g ρ) (index ctx e i span) (index ctx' e' i' (g span)) := by
  simp only [index, h.ty_eq, elementType?_eq hctx]
  cases elementType? ctx' e'.ty with
  | none => exact h.fault _
  | some element => exact (alike_indexOperand hi).bind fun _ _ hi => .index element _ h hi

theorem alike_throughPointer (h : e.Alike g ρ e') :
    (throughPointer ctx e).Alike g ρ (throughPointer ctx' e') := by
  simp only [throughPointer, h.ty_eq, hctx.expand_eq]
  split
  · rw [h.span_eq]
    exact .dereference _ _ h
  · exact h

theorem alike_field (h : e.Alike g ρ e') (ident : Ident) (span : Span) :
    SameOutcome g (Typed.Expr.Alike g ρ) (field ctx e ident span)
      (field ctx' e' (ident.respan g) (g span)) := by
  have htarget := alike_throughPointer hctx h
  simp only [field, Ident.name_respan, htarget.ty_eq]
  split
  · split
    · exact .field _ span _ _ htarget
    · rfl
  · exact htarget.fault _

theorem alike_enumVariant? (target : Expr) (ident : Ident) (span : Span) :
    Option.Rel (SameOutcome g (Typed.Expr.Alike g ρ)) (enumVariant? ctx target ident span)
      (enumVariant? ctx' (target.respan g) (ident.respan g) (g span)) := by
  cases target with
  | name enum =>
    simp only [enumVariant?, Expr.respan, Ident.name_respan]
    rcases rel_cases (hctx.lookup enum.name) with ⟨hx, hy⟩ | ⟨_, _, hx, hy, hid⟩
    · rw [hx, hy]
      exact .none
    · rw [hx, hy]
      simp only [(hctx.symbolAt hid).ty_eq]
      split
      · rename_i name variants _
        cases variants.lookup ident.name with
        | none => exact .some rfl
        | some value => exact .some (.integer _ span value false)
      · exact .none
  | _ => exact .none

end

end Typing

/-! ### Expressions -/

namespace Expr

variable {ctx ctx' : Context}

mutual

/-- An expression is checked alike in contexts that are alike, wherever it stands. -/
theorem alike_check (hctx : ctx.Alike ρ ctx') (e : Expr) :
    SameOutcome g (Typed.Expr.Alike g ρ) (e.check ctx) ((e.respan g).check ctx') := by
  cases e with
  | integer value signed span => exact .integer _ span value false
  | float value span => exact .float _ span value
  | bool value span => exact .bool _ span value
  | string value span => exact .string _ span value
  | name ident => exact Typing.alike_name hctx ident
  | invoke target args span =>
    exact (alike_checkAll hctx args).bind fun _ _ hargs =>
      Typing.alike_invoke hctx target hargs span
  | unary op operand span =>
    exact (alike_check hctx operand).bind fun _ _ h =>
      Typing.alike_unary hctx op h span
  | binary op left right span =>
    exact (alike_check hctx left).bind fun _ _ hleft =>
      (alike_check hctx right).bind fun _ _ hright =>
        Typing.alike_binary op hleft hright span
  | index target i span =>
    exact (alike_check hctx target).bind fun _ _ htarget =>
      (alike_check hctx i).bind fun _ _ hi =>
        Typing.alike_index hctx htarget hi span
  | field target ident span =>
    have htarget := alike_check hctx target
    simp only [respan, check]
    rcases rel_cases (Typing.alike_enumVariant? hctx target ident span) with
      ⟨hx, hy⟩ | ⟨a, b, hx, hy, hab⟩
    · rw [hx, hy]
      exact htarget.bind fun _ _ h => Typing.alike_field hctx h ident span
    · rw [hx, hy]
      exact hab

theorem alike_checkAll (hctx : ctx.Alike ρ ctx') (es : List Expr) :
    SameOutcome g (List.Forall₂ (Typed.Expr.Alike g ρ)) (checkAll ctx es)
      (checkAll ctx' (respanAll g es)) := by
  cases es with
  | nil => exact .nil
  | cons e es =>
    exact (alike_check hctx e).bind fun _ _ h =>
      (alike_checkAll hctx es).bind fun _ _ hes => .cons h hes

end

end Expr

end Laye
