import Laye.Proofs.Typing.Conversion
import Laye.Typing.Statement

/-!
# What the checker makes of expressions

The rules of the checker put typed operands together after they were converted. `Typing.Rules` says
of two properties that they follow these rules: `L` is to hold of what an expression is checked to,
and `E` of what it is converted to, once it has a type of its own. There is one clause for each form
of typed expression, with all that the checker has made sure of by then. Properties that follow the
rules hold of all checked expressions (`Typing.Rules.check`), and of those that statements are made
of.
-/

namespace Laye

/-- The operator as it is written. -/
def Typed.UnaryOp.written : Typed.UnaryOp → Laye.UnaryOp
  | .neg => .neg
  | .not => .not
  | .bitNot => .bitNot

namespace Typing

open Typed.Expr (Settles Arguments MixedLiterals convertTo_settles)

/-- The properties follow the rules of the checker. Operands are converted to types of `T`. -/
structure Rules (ctx : Context) (T : Ty → Prop) (L E : Expr → Typed.Expr → Prop) : Prop where
  chosen : ∀ ty ∈ Ty.chosen, T ty
  params : ∀ {name : String} {function : SymbolId} {signature : Signature},
    ctx.callee? name = some (function, signature) → ∀ ty ∈ signature.paramTypes, T ty
  /-- Literals take the integer type of the other operand. -/
  operand : ∀ {e : Expr} {t : Typed.Expr}, L e t → t.ty.isInteger = true → T t.ty
  settle : ∀ {e : Expr} {t t' : Typed.Expr}, L e t → Settles T t t' → E e t'
  place : ∀ {e : Expr} {t : Typed.Expr}, L e t → t.isPlaceIn ctx = true → E e t
  loosen : ∀ {e : Expr} {t : Typed.Expr}, E e t → L e t
  integer : ∀ value signed span, L (.integer value signed span)
    (.integer (.untypedInt signed) span value false)
  float : ∀ value span, L (.float value span) (.float .untypedFloat span value)
  bool : ∀ value span, L (.bool value span) (.bool .untypedBool span value)
  string : ∀ value span, L (.string value span) (.string .untypedString span value)
  negatedInteger : ∀ {operand : Expr} {signed : Bool} {inner : Span} {magnitude : Nat}
    {negative : Bool} (span : Span),
    L operand (.integer (.untypedInt signed) inner magnitude negative) →
    L (.unary .neg operand span) (.integer (.untypedInt true) span magnitude !negative)
  negatedFloat : ∀ {operand : Expr} {inner : Span} {value : Float} (span : Span),
    L operand (.float .untypedFloat inner value) →
    L (.unary .neg operand span) (.float .untypedFloat span (-value))
  name : ∀ {ident : Ident} {id : SymbolId}, ctx.scopes.lookup ident.name = some id →
    (ctx.symbolAt id).kind.isType = false →
    E (.name ident) (.load (ctx.symbolAt id).ty ident.span id)
  variant : ∀ {enum ident : Ident} {id : SymbolId} {name : String} {variants : List (String × Nat)}
    {value : Nat} (span : Span), ctx.scopes.lookup enum.name = some id →
    (ctx.symbolAt id).ty = .enum name variants → variants.lookup ident.name = some value →
    E (.field (.name enum) ident span) (.integer (.enum name variants) span value false)
  invoke : ∀ {ident : Ident} {args : List Expr} {args' : List Typed.Expr} {function : SymbolId}
    {signature : Signature} (span : Span), List.Forall₂ E args args' →
    ctx.callee? ident.name = some (function, signature) → Arguments signature args' →
    E (.invoke (.name ident) args span) (.invoke signature.returnType span function args')
  unary : ∀ {operand : Expr} {value : Typed.Expr} (op : Typed.UnaryOp) (span : Span),
    E operand value → op.Accepts value.ty → (op = .neg → operand.check ctx = .ok value) →
    E (.unary op.written operand span) (.unary value.ty span op value)
  addressOf : ∀ {operand : Expr} {value : Typed.Expr} (span : Span), E operand value →
    value.isPlaceIn ctx = true → E (.unary .addressOf operand span)
      (.addressOf (.pointerTo value.ty value.addressAccess) span value)
  dereference : ∀ {operand : Expr} {value : Typed.Expr} {element : Ty} {access : Access}
    (span : Span), E operand value → value.ty = .pointer element access →
    E (.unary .dereference operand span) (.dereference (ctx.expand element) span value)
  binary : ∀ {op : BinaryOp} {left right : Expr} {left' right' : Typed.Expr} (span : Span),
    E left left' → E right right' →
    (left'.ty = right'.ty ∨ op.isLogical = false ∧ MixedLiterals left' right') →
    op.Accepts left'.ty →
    E (.binary op left right span) (.binary (op.resultType left'.ty) span op left' right')
  index : ∀ {target i : Expr} {target' i' : Typed.Expr} {element : Ty} (span : Span),
    E target target' → E i i' → elementType? ctx target'.ty = some element →
    i'.ty.isInteger = true → E (.index target i span) (.index element span target' i')
  field : ∀ {target : Expr} {target' : Typed.Expr} {ident : Ident} {struct : String}
    {typeParams : List TypeParam} {fields : List (String × Ty)} {ty : Ty} {place : Nat}
    (span : Span),
    E target target' → (throughPointer ctx target').ty = .struct struct typeParams fields →
    fields[place]? = some (ident.name, ty) → fields.lookup ident.name = some ty →
    E (.field target ident span) (.field ty span (throughPointer ctx target') ident.name place)

/-! ### Operands -/

variable {T : Ty → Prop} {args args' : List Typed.Expr} {tys : List Ty}

/-- Arguments settle at the types of the parameters, the variadic ones at promoted types. -/
theorem arguments_settle (hT : ∀ ty ∈ Ty.chosen, T ty) (htys : ∀ ty ∈ tys, T ty)
    (h : arguments tys args = .ok args') : List.Forall₂ (Settles T) args args' ∧
      (args'.map Typed.Expr.ty).take tys.length = tys.take args.length ∧
      ∀ arg ∈ args'.drop tys.length, arg.ty.Promoted := by
  induction args generalizing tys args' with
  | nil =>
    · cases h
      simp
  | cons _ _ ih =>
    cases tys with
    | nil =>
      obtain ⟨_, hfirst, h⟩ := bind_eq_ok.mp h
      obtain ⟨_, hothers, h⟩ := bind_eq_ok.mp h
      cases h
      obtain ⟨hsettles, hpromoted⟩ := Typed.Expr.promoted_settles hT hfirst
      obtain ⟨hall, -, hsurplus⟩ := ih (by simp) hothers
      simpa using ⟨⟨hsettles, hall⟩, hpromoted, by simpa using hsurplus⟩
    | cons ty _ =>
      obtain ⟨_, hfirst, h⟩ := bind_eq_ok.mp h
      obtain ⟨_, hothers, h⟩ := bind_eq_ok.mp h
      cases h
      obtain ⟨hsettles, hty⟩ := convertTo_settles (htys ty (by simp)) hfirst
      obtain ⟨hall, hleading, hsurplus⟩ := ih (fun ty hty => htys ty (by simp [hty])) hothers
      simpa [hty, hleading] using ⟨⟨hsettles, hall⟩, hsurplus⟩

theorem argumentCountProblem?_eq_none {name : String} {signature : Signature} {given : Nat}
    (h : argumentCountProblem? name signature given = none) :
    signature.params.length ≤ given ∧
      (signature.varArgs ≠ .c → given = signature.params.length) := by
  simp only [argumentCountProblem?] at h
  split at h
  · rename_i hc
    split at h
    · cases h
    · rename_i hle
      exact ⟨Nat.le_of_not_lt hle, fun hne => (hne hc).elim⟩
  · split at h
    · cases h
    · rename_i heq
      simp only [ne_eq, Decidable.not_not] at heq
      exact ⟨Nat.le_of_eq heq.symm, fun _ => heq⟩

theorem accepts_of_isComparable {op : BinaryOp} {ty : Ty} (hop : op.isComparison = true)
    (h : isComparable op ty = true) : op.Accepts ty := by
  cases op <;> cases hop <;> cases ty <;>
    simp_all [isComparable, BinaryOp.Accepts, BinaryOp.isEquality, Ty.isAggregate, Ty.isInteger,
      Ty.isFloatLike]

theorem accepts_of_isComputable {op : BinaryOp} {ty : Ty} (hlogical : op.isLogical = false)
    (hcomparison : op.isComparison = false) (h : isComputable op ty = true) : op.Accepts ty := by
  cases op <;> cases hlogical <;> cases hcomparison <;>
    simpa [isComputable, BinaryOp.Accepts, BinaryOp.isBitwise] using h

theorem getElem?_of_findIdx? {fields : List (String × Ty)} {name : String} {place : Nat} {ty : Ty}
    (hplace : fields.findIdx? (·.1 == name) = some place) (hty : fields.lookup name = some ty) :
    fields[place]? = some (name, ty) := by
  induction fields generalizing place with
  | nil => cases hplace
  | cons first _ ih =>
    obtain ⟨firstName, _⟩ := first
    by_cases hname : firstName = name
    · subst hname
      simp only [List.findIdx?_cons, beq_self_eq_true, if_true, Option.some.injEq] at hplace
      simp only [List.lookup_cons, beq_self_eq_true, Option.some.injEq] at hty
      simp [← hplace, hty]
    · have hne : (name == firstName) = false := by simpa using Ne.symm hname
      simp only [List.findIdx?_cons, beq_iff_eq, hname, if_false,
        Option.map_eq_some_iff] at hplace
      simp only [List.lookup_cons, hne] at hty
      obtain ⟨_, hplace', rfl⟩ := hplace
      simpa using ih hplace' hty

variable {R : Expr → Typed.Expr → Prop} {value : Option Expr} {value' : Option Typed.Expr}

theorem optional_rel {check : Expr → Except Fault Typed.Expr}
    (hcheck : ∀ e t, check e = .ok t → R e t) (h : optional check value = .ok value') :
    Option.Rel R value value' := by
  cases value with
  | none =>
    cases h
    exact .none
  | some e =>
    obtain ⟨t, ht, h⟩ := bind_eq_ok.mp h
    cases h
    exact .some (hcheck e t ht)

theorem exists_of_rel (h : Option.Rel R value value') {t : Typed.Expr} (ht : value' = some t) :
    ∃ e, R e t := by
  cases h with
  | none => cases ht
  | some h =>
    cases ht
    exact ⟨_, h⟩

/-! ### The rules one by one -/

namespace Rules

variable {ctx : Context} {L E : Expr → Typed.Expr → Prop} (h : Rules ctx T L E)
  {e target : Expr} {ident : Ident} {span : Span} {t value : Typed.Expr}
include h

theorem same (ht : L e t) (htyped : t.ty.isUntyped = false) : E e t := h.settle ht (.same htyped)

theorem of_ty {ty : Ty} (ht : L e t) (hty : t.ty = ty) (htyped : ty.isUntyped = false) : E e t :=
  h.same ht (hty ▸ htyped)

/-- A name that is found and names no type follows the rules. -/
theorem of_name (hok : Typing.name ctx ident = .ok t) : E (.name ident) t := by
  unfold Typing.name at hok
  split at hok
  · cases hok
  · rename_i _ hid
    simp only at hok
    split at hok
    · cases hok
    · rename_i hkind
      cases hok
      exact h.name hid (by simpa using hkind)

theorem of_variant (hok : enumVariant? ctx target ident span = some (.ok t)) :
    E (.field target ident span) t := by
  unfold enumVariant? at hok
  split at hok
  · split at hok
    · cases hok
    · rename_i _ hid
      split at hok
      · rename_i _ _ henum
        split at hok
        · rename_i _ hvalue
          cases hok
          exact h.variant span hid henum hvalue
        · cases hok
      · cases hok
  · cases hok

theorem all_settle {es : List Expr} {ts ts' : List Typed.Expr} (hall : List.Forall₂ L es ts)
    (hsettle : List.Forall₂ (Settles T) ts ts') : List.Forall₂ E es ts' := by
  induction hall generalizing ts' with
  | nil =>
    cases hsettle
    exact .nil
  | cons hfirst _ ih =>
    cases hsettle with
    | cons hfirst' hrest' => exact .cons (h.settle hfirst hfirst') (ih hrest')

/-- A call is accepted with arguments that fit the signature of its callee. -/
theorem of_invoke {es : List Expr} (hargs : List.Forall₂ L es args)
    (hok : Typing.invoke ctx target args span = .ok t) : E (.invoke target es span) t := by
  unfold Typing.invoke at hok
  split at hok
  · split at hok
    · cases hok
    · rename_i _ signature hcallee
      split at hok
      · cases hok
      · rename_i hcount
        obtain ⟨_, hargs', hok⟩ := bind_eq_ok.mp hok
        cases hok
        obtain ⟨hsettle, hleading, hsurplus⟩ :=
          arguments_settle h.chosen (h.params hcallee) hargs'
        obtain ⟨hle, hexact⟩ := argumentCountProblem?_eq_none hcount
        have hparams : signature.paramTypes.length = signature.params.length := by
          simp [Signature.paramTypes]
        rw [hparams] at hleading hsurplus
        refine h.invoke span (h.all_settle hargs hsettle) hcallee
          ⟨fun hc => hsettle.length_eq.symm.trans (hexact hc), ?_, hsurplus⟩
        rw [hleading]
        exact List.take_of_length_le (hparams ▸ hle)
  · cases hok

/-- Literals are negated at once, other numbers by an operator. -/
theorem of_negation (hcheck : e.check ctx = .ok value) (hvalue : L e value)
    (hok : negation value span = .ok t) : L (.unary .neg e span) t := by
  -- a number that has a type keeps it
  have hnumber : ∀ {ty : Ty}, value.ty = ty → ty.isUntyped = false →
      Typed.UnaryOp.Accepts .neg ty → L (.unary .neg e span) (.unary value.ty span .neg value) := by
    intro ty hty htyped haccepts
    exact h.loosen (h.unary .neg span (h.of_ty hvalue hty htyped) (hty ▸ haccepts) fun _ => hcheck)
  unfold negation at hok
  split at hok
  · cases hok
    exact h.negatedInteger span hvalue
  · cases hok
    exact h.negatedFloat span hvalue
  · split at hok
    · cases hok
    · cases hok
    · rename_i hty
      cases hok
      exact hnumber hty rfl (.inl rfl)
    · rename_i bits hty
      cases hok
      exact hnumber hty rfl (.inr (.inl ⟨bits, rfl⟩))
    · rename_i hty
      cases hok
      exact hnumber hty rfl (.inr (.inr (.inl rfl)))
    · rename_i bits hty
      cases hok
      exact hnumber hty rfl (.inr (.inr (.inr ⟨bits, rfl⟩)))
    · cases hok

theorem of_unary {op : UnaryOp} (hcheck : e.check ctx = .ok value) (hvalue : L e value)
    (hok : Typing.unary ctx op value span = .ok t) : L (.unary op e span) t := by
  cases op with
  | neg => exact h.of_negation hcheck hvalue hok
  | not =>
    obtain ⟨_, hvalue', hok⟩ := bind_eq_ok.mp hok
    cases hok
    obtain ⟨hsettles, hty⟩ :=
      convertTo_settles (h.chosen .bool (by simp [Ty.chosen, Ty.defaults])) hvalue'
    have hunary := h.unary .not span (h.settle hvalue hsettles) hty
      fun hneg => by cases hneg
    rw [hty] at hunary
    exact h.loosen hunary
  | bitNot =>
    obtain ⟨_, hvalue', hok⟩ := bind_eq_ok.mp hok
    split at hok
    · rename_i hinteger
      cases hok
      exact h.loosen (h.unary .bitNot span
        (h.settle hvalue (Typed.Expr.withDefaultType_settles h.chosen hvalue')) hinteger
        fun hneg => by cases hneg)
    · cases hok
  | addressOf =>
    simp only [Typing.unary, Typing.addressOf] at hok
    split at hok
    · rename_i hplace
      cases hok
      exact h.loosen (h.addressOf span (h.place hvalue hplace) hplace)
    · cases hok
  | dereference =>
    simp only [Typing.unary, Typing.dereference] at hok
    split at hok
    · rename_i hty
      cases hok
      exact h.loosen (h.dereference span (h.of_ty hvalue hty rfl) hty)
    · cases hok

section Binary

variable {e' : Expr} {left right left' right' : Typed.Expr}

section

variable (hleft : L e left) (hright : L e' right)
include hleft hright

theorem of_truthOperands (hok : truthOperands left right = .ok (left', right')) :
    E e left' ∧ E e' right' ∧ left'.ty = .bool ∧ right'.ty = .bool := by
  have hbool := h.chosen .bool (by simp [Ty.chosen, Ty.defaults])
  obtain ⟨l, hl, hok⟩ := bind_eq_ok.mp hok
  obtain ⟨r, hr, hok⟩ := bind_eq_ok.mp hok
  cases hok
  obtain ⟨hsettleL, htyL⟩ := convertTo_settles hbool hl
  obtain ⟨hsettleR, htyR⟩ := convertTo_settles hbool hr
  exact ⟨h.settle hleft hsettleL, h.settle hright hsettleR, htyL, htyR⟩

/-- Unified operands have one type, unless a signed literal meets an unsigned one. -/
theorem of_unify (hok : left.unify right = .ok (left', right')) :
    E e left' ∧ E e' right' ∧ (left'.ty = right'.ty ∨ MixedLiterals left' right') := by
  have hunifies := Typed.Expr.unifies_of_unify hok
  exact ⟨h.settle hleft (hunifies.settles h.chosen (h.operand hright)),
    h.settle hright (hunifies.symm.settles h.chosen (h.operand hleft)),
    hunifies.types.imp_right And.right⟩

theorem of_comparisonOperands (hok : comparisonOperands left right = .ok (left', right')) :
    E e left' ∧ E e' right' ∧ (left'.ty = right'.ty ∨ MixedLiterals left' right') := by
  unfold comparisonOperands at hok
  split at hok
  · obtain ⟨hleft', hright', htyL, htyR⟩ := h.of_truthOperands hleft hright hok
    exact ⟨hleft', hright', .inl (htyL.trans htyR.symm)⟩
  · split at hok
    · rename_i hsame
      cases hok
      have htyped : left.ty.isUntyped = false := by
        have hdirect := hsame.2
        simp only [comparesDirectly, Bool.and_eq_true, Bool.not_eq_true'] at hdirect
        exact hdirect.2
      exact ⟨h.same hleft htyped, h.same hright (hsame.1 ▸ htyped), .inl hsame.1⟩
    · exact h.of_unify hleft hright hok

/-- The operands of an accepted operator settle at a type that it accepts. -/
theorem of_binary {op : BinaryOp}
    (hok : Typing.binary op left right span = .ok t) : E (.binary op e e' span) t := by
  unfold Typing.binary at hok
  split at hok
  · rename_i hlogical
    obtain ⟨⟨l, r⟩, hoperands, hok⟩ := bind_eq_ok.mp hok
    cases hok
    obtain ⟨hl, hr, htyL, htyR⟩ := h.of_truthOperands hleft hright hoperands
    have hresult : op.resultType l.ty = .bool := by simp [BinaryOp.resultType, hlogical]
    have haccepts : op.Accepts l.ty := by
      cases op <;> cases hlogical <;> exact htyL
    exact hresult ▸ h.binary span hl hr (.inl (htyL.trans htyR.symm)) haccepts
  · rename_i hlogical
    rw [Bool.not_eq_true] at hlogical
    split at hok
    · rename_i hcomparison
      obtain ⟨⟨l, r⟩, hoperands, hok⟩ := bind_eq_ok.mp hok
      obtain ⟨hl, hr, hsame⟩ := h.of_comparisonOperands hleft hright hoperands
      simp only at hok
      split at hok
      · rename_i hcomparable
        cases hok
        have hresult : op.resultType l.ty = .bool := by simp [BinaryOp.resultType, hcomparison]
        exact hresult ▸ h.binary span hl hr (hsame.imp_right fun hmixed => ⟨hlogical, hmixed⟩)
          (accepts_of_isComparable hcomparison hcomparable)
      · cases hok
    · rename_i hcomparison
      rw [Bool.not_eq_true] at hcomparison
      obtain ⟨⟨l, r⟩, hoperands, hok⟩ := bind_eq_ok.mp hok
      obtain ⟨hl, hr, hsame⟩ := h.of_unify hleft hright hoperands
      simp only at hok
      split at hok
      · rename_i hcomputable
        cases hok
        have hresult : op.resultType l.ty = l.ty := by
          simp [BinaryOp.resultType, hlogical, hcomparison]
        have hbinary := h.binary span hl hr (hsame.imp_right fun hmixed => ⟨hlogical, hmixed⟩)
          (accepts_of_isComputable hlogical hcomparison hcomputable)
        rwa [hresult] at hbinary
      · cases hok

end

theorem of_index (htarget : L e left) (hi : L e' right)
    (hok : Typing.index ctx left right span = .ok t) : E (.index e e' span) t := by
  unfold Typing.index at hok
  split at hok
  · cases hok
  · rename_i _ helement
    obtain ⟨i', hi', hok⟩ := bind_eq_ok.mp hok
    cases hok
    have htyped : left.ty.isUntyped = false := by
      cases hty : left.ty <;> rw [hty] at helement <;> first | rfl | cases helement
    obtain ⟨hindex, hinteger⟩ : E e' i' ∧ i'.ty.isInteger = true := by
      unfold indexOperand at hi'
      split at hi'
      · obtain ⟨hsettles, hty⟩ := convertTo_settles
          (h.chosen (.int false) (by simp [Ty.chosen, Ty.defaults])) hi'
        exact ⟨h.settle hi hsettles, by rw [hty]; rfl⟩
      · rename_i htyped
        split at hi'
        · rename_i hinteger
          cases hi'
          exact ⟨h.same hi (by simpa using htyped), hinteger⟩
        · cases hi'
    exact h.index span (h.same htarget htyped) hindex helement hinteger

end Binary

/-- A field is that of the struct, or of the struct behind the pointer. -/
theorem of_field (htarget : L e value) (hok : Typing.field ctx value ident span = .ok t) :
    E (.field e ident span) t := by
  simp only [Typing.field] at hok
  split at hok
  · rename_i _ _ _ hstruct
    split at hok
    · rename_i _ ty hplace hty
      cases hok
      have htyped : value.ty.isUntyped = false := by
        unfold throughPointer at hstruct
        split at hstruct
        · rename_i hpointer
          rw [hpointer]
          rfl
        · rw [hstruct]
          rfl
      exact h.field span (h.same htarget htyped) hstruct (getElem?_of_findIdx? hplace hty) hty
    · cases hok
  · cases hok

/-! ### All expressions -/

omit h

mutual

/-- What an expression is checked to follows the rules. -/
theorem check (h : Rules ctx T L E) : (e : Expr) → {t : Typed.Expr} → e.check ctx = .ok t → L e t
  | .integer value signed span, _, hok => by
    cases hok
    exact h.integer value signed span
  | .float value span, _, hok => by
    cases hok
    exact h.float value span
  | .bool value span, _, hok => by
    unfold Expr.check at hok
    cases hok
    exact h.bool value span
  | .string value span, _, hok => by
    unfold Expr.check at hok
    cases hok
    exact h.string value span
  | .name _, _, hok => by
    unfold Expr.check at hok
    exact h.loosen (h.of_name hok)
  | .invoke target args span, _, hok => by
    unfold Expr.check at hok
    obtain ⟨_, hargs, hok⟩ := bind_eq_ok.mp hok
    exact h.loosen (h.of_invoke (h.checkAll args hargs) hok)
  | .unary op operand span, _, hok => by
    unfold Expr.check at hok
    obtain ⟨_, hoperand, hok⟩ := bind_eq_ok.mp hok
    exact h.of_unary hoperand (h.check operand hoperand) hok
  | .binary op left right span, _, hok => by
    unfold Expr.check at hok
    obtain ⟨_, hleft, hok⟩ := bind_eq_ok.mp hok
    obtain ⟨_, hright, hok⟩ := bind_eq_ok.mp hok
    exact h.loosen (h.of_binary (h.check left hleft) (h.check right hright) hok)
  | .index target i span, _, hok => by
    unfold Expr.check at hok
    obtain ⟨_, htarget, hok⟩ := bind_eq_ok.mp hok
    obtain ⟨_, hi, hok⟩ := bind_eq_ok.mp hok
    exact h.loosen (h.of_index (h.check target htarget) (h.check i hi) hok)
  | .field target ident span, _, hok => by
    unfold Expr.check at hok
    split at hok
    · rename_i _ hvariant
      exact h.loosen (h.of_variant (hvariant.trans (congrArg some hok)))
    · obtain ⟨_, htarget, hok⟩ := bind_eq_ok.mp hok
      exact h.loosen (h.of_field (h.check target htarget) hok)

theorem checkAll (h : Rules ctx T L E) : (es : List Expr) → {ts : List Typed.Expr} →
    Expr.checkAll ctx es = .ok ts → List.Forall₂ L es ts
  | [], _, hok => by
    cases hok
    exact .nil
  | e :: es, _, hok => by
    obtain ⟨_, hfirst, hok⟩ := bind_eq_ok.mp hok
    obtain ⟨_, hrest, hok⟩ := bind_eq_ok.mp hok
    cases hok
    exact .cons (h.check e hfirst) (h.checkAll es hrest)

end

/-! ### Parts of statements -/

include h

/-- An expression that is checked at a type has it. -/
theorem of_exprAt {ty : Ty} (hty : T ty) (hok : exprAt ctx ty e = .ok t) : E e t ∧ t.ty = ty := by
  obtain ⟨_, hchecked, hok⟩ := bind_eq_ok.mp hok
  obtain ⟨hsettles, hty'⟩ := convertTo_settles hty hok
  exact ⟨h.settle (h.check e hchecked) hsettles, hty'⟩

theorem of_exprAlone (hok : exprAlone ctx e = .ok t) : E e t := by
  obtain ⟨_, hchecked, hok⟩ := bind_eq_ok.mp hok
  exact h.settle (h.check e hchecked) (Typed.Expr.withDefaultType_settles h.chosen hok)

variable {value : Option Expr} {value' : Option Typed.Expr}

/-- A variable has a type that is not void, and its value has that type. -/
theorem of_bindingParts {written : Option TypeExpr} {ty : Ty}
    (hwritten : ∀ {written : TypeExpr} {ty : Ty}, written.resolve ctx.typeNames = .ok ty → T ty)
    (halone : ∀ {e : Expr} {t : Typed.Expr}, exprAlone ctx e = .ok t → E e t → T t.ty)
    (hok : bindingParts ctx written ident value span = .ok (ty, value')) :
    T ty ∧ ty ≠ .void ∧ Option.Rel (fun e t => E e t ∧ t.ty = ty) value value' := by
  have hparts : ∀ {ty' : Ty} {value'' : Option Typed.Expr} {fault : Fault},
      (if ty'.isVoid then .error fault else .ok (ty', value'') : Except Fault _) =
        .ok (ty, value') → ty' = ty ∧ value'' = value' ∧ ty ≠ .void := by
    intro ty' value'' fault hok
    split at hok
    · cases hok
    · rename_i hvoid
      cases hok
      refine ⟨rfl, rfl, ?_⟩
      rintro rfl
      exact hvoid rfl
  simp only [bindingParts] at hok
  split at hok
  · obtain ⟨_, hresolve, hok⟩ := bind_eq_ok.mp hok
    obtain ⟨_, hvalue, hok⟩ := bind_eq_ok.mp hok
    obtain ⟨rfl, rfl, hvoid⟩ := hparts hok
    refine ⟨hwritten hresolve, hvoid, optional_rel (fun e t hchecked => ?_) hvalue⟩
    exact h.of_exprAt (hwritten hresolve) hchecked
  · obtain ⟨_, hchecked, hok⟩ := bind_eq_ok.mp hok
    obtain ⟨rfl, rfl, hvoid⟩ := hparts hok
    have ht := h.of_exprAlone hchecked
    exact ⟨halone hchecked ht, hvoid, .some ⟨ht, rfl⟩⟩
  · cases hok

theorem of_returnValue
    (hreturn : ∀ {signature : Signature}, ctx.enclosingSignature? = some signature →
      T signature.returnType) (hok : returnValue ctx value span = .ok value') :
    ∃ signature, ctx.enclosingSignature? = some signature ∧
      signature.returnType.isVoid = value'.isNone ∧
      Option.Rel (fun e t => E e t ∧ t.ty = signature.returnType) value value' := by
  unfold returnValue at hok
  split at hok
  · cases hok
  · rename_i signature hsignature
    refine ⟨signature, hsignature, ?_⟩
    split at hok
    · cases hok
    · rename_i hvoid
      cases hok
      exact ⟨hvoid, .none⟩
    · cases hok
    · rename_i hvoid
      obtain ⟨_, hchecked, hok⟩ := bind_eq_ok.mp hok
      cases hok
      exact ⟨hvoid, .some (h.of_exprAt (hreturn hsignature) hchecked)⟩

/-- What is assigned to is a place that can be written, and the value has its type. -/
theorem of_assignment {value : Expr} {target' value' : Typed.Expr}
    (htarget : E target target' → T target'.ty)
    (hok : assignment ctx target value = .ok (target', value')) :
    E target target' ∧ target'.isPlaceIn ctx = true ∧ target'.readOnlyContainer? = none ∧
      E value value' ∧ value'.ty = target'.ty := by
  obtain ⟨checked, hchecked, hok⟩ := bind_eq_ok.mp hok
  have hplace : checked.isPlaceIn ctx = true := by simpa using not_of_unless hok
  have hok := unless_eq_ok hok
  split at hok
  · cases hok
  · rename_i hwrite
    obtain ⟨_, hvalue, hok⟩ := bind_eq_ok.mp hok
    cases hok
    have ht := h.place (h.check target hchecked) hplace
    exact ⟨ht, hplace, hwrite, h.of_exprAt (htarget ht) hvalue⟩

end Rules

end Typing

end Laye
