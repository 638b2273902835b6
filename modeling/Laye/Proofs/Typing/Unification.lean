import Laye.Proofs.Typing.Chains

/-!
# Bringing two operands to one type

`Typed.Expr.Unifies` lists the ways in which two operands are brought together, and
`Typed.Expr.unify_eq_ok` says that there are no others. Each law of the operation is then one look
at the list: it does not matter which operand comes first, the results have one type, and no integer
loses bits (`Typed.Expr.unify_laws`).

The platform's integer types win over sized ones, whatever the signs are. So two integer types of
one width and opposite signs have no common type only if both are the platform's or both are sized.
An operator over such operands is refused, and over other ones it is not
(`Expr.check_binary_of_opposite_signs`): `int` and `u64` are added as `int`.
-/

namespace Laye

/-! ### Common types -/

theorem commonType_self (ty : Ty) : commonType ty ty = .ok ty := if_pos rfl

theorem Ty.CastsTo.width_le {source target : Ty} (h : source.CastsTo target)
    (hwidth : source.HasKeywordWidth) {signed signed' : Bool} {bits bits' : Nat}
    (hsource : source.integerInfo? = some (signed, bits))
    (htarget : target.integerInfo? = some (signed', bits')) : bits ≤ bits' := by
  cases h with
  | platform signed bits _ =>
    cases hsource
    cases htarget
    have hle : ∀ width ∈ Builtin.integerWidths, width ≤ 64 := by decide
    exact hle bits (hwidth signed bits rfl)
  | wider _ _ _ hlt =>
    cases hsource
    cases htarget
    exact Nat.le_of_lt hlt
  | integerToFloat | address => cases htarget
  | _ => cases hsource

namespace Typed.Expr

variable {e e' left right left' right' : Expr}

theorem Unifies.unify (h : Unifies left right left' right') :
    left.unify right = .ok (left', right') := by
  cases h with
  | floats hfloat hleft hright =>
    simp [Expr.unify, hfloat, hleft, hright, bind, Except.bind]
  | literals hty hty' hleft hright =>
    simp [Expr.unify, hty, hty', Ty.isFloatLike, hleft, hright, bind, Except.bind]
  | leftLiteral hty hinteger hleft =>
    cases hright : right.ty with
    | int | sizedInt =>
      rw [hright] at hleft
      simp [Expr.unify, hty, hright, Ty.isFloatLike, Ty.isInteger, hleft, bind, Except.bind]
    | _ =>
      rw [hright] at hinteger
      cases hinteger
  | rightLiteral hty hinteger hright =>
    cases hleft : left.ty with
    | int | sizedInt =>
      rw [hleft] at hright
      simp [Expr.unify, hty, hleft, Ty.isFloatLike, Ty.isInteger, hright, bind, Except.bind]
    | _ =>
      rw [hleft] at hinteger
      cases hinteger
  | concrete hfloat htyped hcommon =>
    obtain ⟨hleft, hright⟩ := Bool.or_eq_false_iff.mp htyped
    unfold Expr.unify
    rw [if_neg (by simp [hfloat])]
    split
    · rename_i hty _
      rw [hty] at hleft
      cases hleft
    · rename_i hty _
      rw [hty] at hleft
      cases hleft
    · rename_i hty _
      rw [hty] at hright
      cases hright
    · rw [if_neg (by simp [htyped])]
      simp [unifyConcrete, hcommon]

theorem unify_eq_ok : left.unify right = .ok (left', right') ↔ Unifies left right left' right' :=
  ⟨unifies_of_unify, Unifies.unify⟩

/-! ### Single operands -/

/-- What an operand may become. -/
inductive Adapted (e : Expr) : Expr → Prop where
  | unchanged : Adapted e e
  /-- An expression without a type of its own, which is a literal, takes a type. -/
  | retyped (ty : Ty) (h : e.ty.isUntyped = true) : Adapted e (e.retype ty)
  /-- An integer literal becomes a float literal. -/
  | asFloat {signed : Bool} {span : Span} {magnitude : Nat} {negative : Bool}
      (h : e = .integer (.untypedInt signed) span magnitude negative) :
      Adapted e (.float .float span
        (if negative then -Float.ofNat magnitude else Float.ofNat magnitude))
  | wrapped (ty : Ty) : Adapted e (e.castTo ty)

/-- The operand stands under one more cast. -/
def Wrapped (e e' : Expr) : Prop := ∃ ty, e' = e.castTo ty

theorem castTo_ne_self (e : Expr) (ty : Ty) : e.castTo ty ≠ e := by
  intro h
  have hsize := congrArg sizeOf h
  simp only [castTo, Expr.cast.sizeOf_spec] at hsize
  omega

theorem not_wrapped_self (e : Expr) : ¬ Wrapped e e := fun ⟨ty, h⟩ => castTo_ne_self e ty h.symm

theorem not_wrapped_widenTo_self (e : Expr) : ¬ Wrapped e (e.widenTo e.ty) := by
  rw [widenTo_self]
  exact not_wrapped_self e

theorem not_wrapped_literalAs {target : Ty} (h : e.literalAs target = .ok e') : ¬ Wrapped e e' := by
  obtain ⟨_, _, _, _, -, rfl⟩ := literalAs_eq_ok h
  rintro ⟨ty, hcast⟩
  cases hcast

theorem adapted_literalAs {signed : Bool} {target : Ty} (hty : e.ty = .untypedInt signed)
    (h : e.literalAs target = .ok e') : Adapted e e' := by
  obtain ⟨_, _, _, _, rfl, rfl⟩ := literalAs_eq_ok h
  exact .retyped target (congrArg Ty.isUntyped hty)

theorem adapted_widenTo (e : Expr) (ty : Ty) : Adapted e (e.widenTo ty) := by
  unfold widenTo
  split
  · exact .unchanged
  · exact .wrapped ty

theorem adapted_toFloat (h : e.toFloat = .ok e') : Adapted e e' := by
  unfold toFloat at h
  split at h
  · cases h
    exact .unchanged
  · rename_i hty
    cases h
    exact .retyped _ (congrArg Ty.isUntyped hty)
  · rename_i _ hty
    cases h
    cases e with
    | integer _ _ _ _ =>
      cases hty
      exact .asFloat rfl
    | _ => exact .wrapped _
  · cases h
    exact .wrapped _
  · cases h
    exact .wrapped _
  · cases h
    exact .wrapped _
  · cases h

/-! ### The laws -/

namespace Unifies

variable {signed signed' : Bool}

section

variable (h : Unifies left right left' right')
include h

theorem types_of_literals (hty : left.ty = .untypedInt signed)
    (hty' : right.ty = .untypedInt signed') :
    left'.ty = .int signed ∧ right'.ty = .int signed' := by
  cases h with
  | floats hfloat => simp [hty, hty', Ty.isFloatLike] at hfloat
  | literals h1 h2 hleft hright =>
    rw [hty] at h1
    rw [hty'] at h2
    cases h1
    cases h2
    exact ⟨ty_literalAs hleft, ty_literalAs hright⟩
  | leftLiteral _ hinteger => simp [hty', Ty.isInteger] at hinteger
  | rightLiteral _ hinteger => simp [hty, Ty.isInteger] at hinteger
  | concrete _ htyped => simp [hty, Ty.isUntyped] at htyped

theorem adapted : Adapted left left' := by
  cases h with
  | floats _ hleft _ => exact adapted_toFloat hleft
  | literals hty _ hleft _ | leftLiteral hty _ hleft => exact adapted_literalAs hty hleft
  | rightLiteral => exact .unchanged
  | concrete => exact adapted_widenTo left _

theorem not_both_wrapped (hleft : left.ty.isFloatLike = false)
    (hright : right.ty.isFloatLike = false) : ¬ (Wrapped left left' ∧ Wrapped right right') := by
  rintro ⟨hwrapped, hwrapped'⟩
  cases h with
  | floats hfloat => simp [hleft, hright] at hfloat
  | literals _ _ hliteral _ => exact not_wrapped_literalAs hliteral hwrapped
  | leftLiteral => exact not_wrapped_self right hwrapped'
  | rightLiteral => exact not_wrapped_self left hwrapped
  | concrete _ _ hcommon =>
    -- the common type is that of one of the operands, which is left as it is
    rcases commonType_eq_ok hcommon with ⟨rfl, -⟩ | ⟨-, ⟨rfl, -⟩ | ⟨rfl, -⟩⟩
    · exact not_wrapped_widenTo_self left hwrapped
    · exact not_wrapped_widenTo_self left hwrapped
    · exact not_wrapped_widenTo_self right hwrapped'

theorem width_le (hwidth : left.ty.HasKeywordWidth) {ty : Ty}
    (hcast : left' = left.castTo ty) {bits bits' : Nat}
    (hinfo : left.ty.integerInfo? = some (signed, bits))
    (hinfo' : ty.integerInfo? = some (signed', bits')) : bits ≤ bits' := by
  have hty : left'.ty = ty := by
    rw [hcast]
    rfl
  cases h with
  | floats _ hleft _ =>
    rw [← hty, (toFloat_adjusts hleft).2] at hinfo'
    cases hinfo'
  | literals _ _ hleft _ | leftLiteral _ _ hleft =>
    exact (not_wrapped_literalAs hleft ⟨ty, hcast⟩).elim
  | rightLiteral => exact (not_wrapped_self left ⟨ty, hcast⟩).elim
  | concrete _ _ hcommon =>
    rw [ty_widenTo] at hty
    subst hty
    rcases commonType_eq_ok hcommon with ⟨rfl, -⟩ | ⟨-, ⟨rfl, -⟩ | ⟨-, hcasts⟩⟩
    · exact (not_wrapped_widenTo_self left ⟨_, hcast⟩).elim
    · exact (not_wrapped_widenTo_self left ⟨_, hcast⟩).elim
    · exact hcasts.width_le hwidth hinfo hinfo'

end

theorem of_ty_eq (hty : left.ty = right.ty) (htyped : left.ty.isUntyped = false)
    (hsized : ∀ bits, left.ty ≠ .sizedFloat bits) : Unifies left right left right := by
  cases hfloat : left.ty.isFloatLike with
  | true =>
    have hleft : left.ty = .float := by
      cases hleft : left.ty with
      | float => rfl
      | sizedFloat bits => exact (hsized bits hleft).elim
      | untypedFloat =>
        rw [hleft] at htyped
        cases htyped
      | _ =>
        rw [hleft] at hfloat
        cases hfloat
    exact .floats (by simp [hfloat]) (by simp [toFloat, hleft]) (by simp [toFloat, ← hty, hleft])
  | false =>
    have hcommon : Unifies left right (left.widenTo left.ty) (right.widenTo left.ty) :=
      .concrete (by simp [hfloat, ← hty]) (by simp [htyped, ← hty])
        (by rw [← hty, commonType_self])
    rwa [widenTo_self, hty, widenTo_self] at hcommon

end Unifies

/-- Bringing the operands of a numeric operator to one type is symmetric, and never narrows.

It does not matter which operand comes first. The results have one type, but for two literals of
different signs, which get the platform's two types. Each operand is left as it is, is a literal
that gets a type, or stands under one more cast; both stand under a cast only if one of them is a
float. A cast from an integer type to another keeps the width or makes it larger. Operands of one
concrete type, but for a sized float, are left as they are. A failure is one fault in what was
found, and a success adds nothing. -/
theorem unify_laws (l r : Expr) (hl : l.ty.HasKeywordWidth) (hr : r.ty.HasKeywordWidth) :
    (∀ l' r', l.unify r = .ok (l', r') ↔ r.unify l = .ok (r', l')) ∧
    (∀ l' r', l.unify r = .ok (l', r') →
      (∀ signed, l.ty = .untypedInt signed → r.ty = .untypedInt (!signed) →
        l'.ty = .int signed ∧ r'.ty = .int (!signed)) ∧
      ((∀ signed, l.ty = .untypedInt signed → r.ty ≠ .untypedInt (!signed)) → l'.ty = r'.ty) ∧
      Adapted l l' ∧ Adapted r r' ∧
      (l.ty.isFloatLike = false → r.ty.isFloatLike = false → ¬ (Wrapped l l' ∧ Wrapped r r')) ∧
      ∀ ty signed signed' bits bits', ty.integerInfo? = some (signed', bits') →
        (l' = l.castTo ty → l.ty.integerInfo? = some (signed, bits) → bits ≤ bits') ∧
        (r' = r.castTo ty → r.ty.integerInfo? = some (signed, bits) → bits ≤ bits')) ∧
    (l.ty = r.ty → l.ty.isUntyped = false → (∀ bits, l.ty ≠ .sizedFloat bits) →
      l.unify r = .ok (l, r)) ∧
    ∀ σ : Session, (∃ l' r', l.unify r = .ok (l', r') ∧
        Guarded.unify l r σ = .ok (some (l', r'), σ)) ∨
      ∃ fault, l.unify r = .error fault ∧
        Guarded.unify l r σ = .ok (none, { σ with findings := σ.findings ++ [.fault fault] }) := by
  refine ⟨fun l' r' => ?_, fun l' r' h => ?_, fun hty htyped hsized => ?_, fun σ => ?_⟩
  · rw [unify_eq_ok, unify_eq_ok]
    exact ⟨Unifies.symm, Unifies.symm⟩
  · have hunifies := unifies_of_unify h
    refine ⟨fun signed hty hty' => hunifies.types_of_literals hty hty', fun hsigns => ?_,
      hunifies.adapted, hunifies.symm.adapted, hunifies.not_both_wrapped, ?_⟩
    · refine hunifies.types.resolve_right ?_
      rintro ⟨⟨signed, hty, hty'⟩, -⟩
      exact hsigns signed hty hty'
    · intro ty signed signed' bits bits' hinfo'
      exact ⟨fun hcast hinfo => hunifies.width_le hl hcast hinfo hinfo',
        fun hcast hinfo => hunifies.symm.width_le hr hcast hinfo hinfo'⟩
  · exact unify_eq_ok.mpr (.of_ty_eq hty htyped hsized)
  · rw [Guarded.runs_unify hl hr σ]
    cases h : l.unify r with
    | ok pair => exact .inl ⟨pair.1, pair.2, rfl, rfl⟩
    | error fault => exact .inr ⟨fault, rfl, rfl⟩

/-- A variable of a signed type, and one of a wider type without a sign. -/
def someShort : Expr := .load (.sizedInt true 16) .nowhere 0

/-- The wider one. -/
def someWord : Expr := .load (.sizedInt false 32) .nowhere 1

theorem unify_laws_someShort :
    someShort.unify someWord = .ok (someShort.castTo (.sizedInt false 32), someWord) ∧
    someWord.unify someShort = .ok (someWord, someShort.castTo (.sizedInt false 32)) ∧
    Adapted someShort (someShort.castTo (.sizedInt false 32)) ∧
    ¬ Wrapped someWord someWord ∧
    someWord.unify someWord = .ok (someWord, someWord) := by
  have hshort : someShort.ty.HasKeywordWidth := by
    rintro _ _ ⟨⟩
    decide
  have hword : someWord.ty.HasKeywordWidth := by
    rintro _ _ ⟨⟩
    decide
  have hunify : someShort.unify someWord =
      .ok (someShort.castTo (.sizedInt false 32), someWord) := by rfl
  obtain ⟨hswap, hresults, -, -⟩ := unify_laws someShort someWord hshort hword
  obtain ⟨-, -, hadapted, -, honce, -⟩ := hresults _ _ hunify
  obtain ⟨-, -, hsame, -⟩ := unify_laws someWord someWord hword hword
  exact ⟨hunify, (hswap _ _).mp hunify, hadapted,
    fun hwrapped => honce rfl rfl ⟨⟨_, rfl⟩, hwrapped⟩,
    hsame rfl rfl (by rintro _ ⟨⟩)⟩

end Typed.Expr

/-! ### Opposite signs -/

/-- Whether the type is an integer type of a given width, and not the platform's. -/
def Ty.isSizedInt : Ty → Bool
  | .sizedInt _ _ => true
  | _ => false

theorem Ty.isInteger_of_integerInfo? {ty : Ty} {info : Bool × Nat}
    (h : ty.integerInfo? = some info) : ty.isInteger = true := by
  cases ty with
  | int | sizedInt => rfl
  | _ => cases h

section

variable {left right : Ty} {signed : Bool} {bits : Nat}
  (hleft : left.integerInfo? = some (signed, bits))
  (hright : right.integerInfo? = some (!signed, bits))
include hleft hright

theorem commonType_of_opposite (hkind : left.isSizedInt = right.isSizedInt) :
    commonType left right = .error (.signsDiffer left right) ∨
      commonType left right = .error (.signsDifferAtWidth left right) := by
  cases left with
  | int _ =>
    cases right with
    | int _ =>
      cases hleft
      cases hright
      exact .inl (by cases signed <;> simp [commonType, Ty.integerInfo?])
    | sizedInt => cases hkind
    | _ => cases hright
  | sizedInt _ _ =>
    cases right with
    | int => cases hkind
    | sizedInt _ _ =>
      cases hleft
      cases hright
      exact .inr (by cases signed <;> simp [commonType, Ty.integerInfo?])
    | _ => cases hright
  | _ => cases hleft

theorem commonType_of_platform (hplatform : left.isSizedInt = false)
    (hsized : right.isSizedInt = true) :
    commonType left right = .ok left ∧ commonType right left = .ok left := by
  cases left with
  | int _ =>
    cases right with
    | sizedInt _ _ => simp [commonType, Ty.integerInfo?]
    | _ => cases hsized
  | sizedInt => cases hplatform
  | _ => cases hleft

end

namespace Typing

variable {op : BinaryOp} {l r : Typed.Expr} {span : Span}

theorem unify_of_isInteger (hl : l.ty.isInteger = true) (hr : r.ty.isInteger = true) :
    l.unify r = l.unifyConcrete r := by
  cases hleft : l.ty with
  | int | sizedInt =>
    cases hright : r.ty with
    | int | sizedInt =>
      simp [Typed.Expr.unify, hleft, hright, Ty.isFloatLike, Ty.isUntyped]
    | _ => simp [hright, Ty.isInteger] at hr
  | _ => simp [hleft, Ty.isInteger] at hl

theorem comparisonOperands_of_isInteger (hl : l.ty.isInteger = true) (hr : r.ty.isInteger = true) :
    comparisonOperands l r = l.unify r := by
  have hbool : ∀ {ty : Ty}, ty.isInteger = true → ty.isBoolLike = false := by
    intro ty hty
    cases ty with
    | int | sizedInt => rfl
    | _ => cases hty
  simp [comparisonOperands, comparesDirectly, hl, hbool hl, hbool hr]

theorem binary_eq_error {problem : Problem} (hop : op.isLogical = false)
    (hl : l.ty.isInteger = true) (hr : r.ty.isInteger = true)
    (h : commonType l.ty r.ty = .error problem) :
    binary op l r span = .error ⟨l.span.combine r.span, problem⟩ := by
  have hunify : l.unify r = .error ⟨l.span.combine r.span, problem⟩ := by
    rw [unify_of_isInteger hl hr, Typed.Expr.unifyConcrete, h]
  rw [binary, if_neg (by simp [hop]), comparisonOperands_of_isInteger hl hr, hunify]
  split <;> rfl

theorem binary_eq_ok {ty : Ty} (hop : op.isLogical = false) (hl : l.ty.isInteger = true)
    (hr : r.ty.isInteger = true) (hty : ty.isInteger = true) (h : commonType l.ty r.ty = .ok ty) :
    binary op l r span =
      .ok (.binary (op.resultType ty) span op (l.widenTo ty) (r.widenTo ty)) := by
  have hunify : l.unify r = .ok (l.widenTo ty, r.widenTo ty) := by
    rw [unify_of_isInteger hl hr, Typed.Expr.unifyConcrete, h]
  rw [binary, if_neg (by simp [hop]), comparisonOperands_of_isInteger hl hr, hunify]
  split
  · rename_i hcomparison
    simp [bind, Except.bind, isComparable, hty, BinaryOp.resultType, hcomparison]
  · rename_i hcomparison
    simp [bind, Except.bind, isComputable, hty, BinaryOp.resultType, hop, hcomparison]

end Typing

namespace Expr

/-- Integers of one width and opposite signs are not brought together, unless one of them has the
platform's type and the other one a sized type.

Both of the platform's types, or both of sized types: an operator over them that computes or
compares is refused. One of each: the one of the sized type is cast to the platform's type, and the
other one is left as it is. -/
theorem check_binary_of_opposite_signs {ctx : Context} {op : BinaryOp} {left right : Expr}
    {l r : Typed.Expr} {signed : Bool} {bits : Nat} (span : Span) (hop : op.isLogical = false)
    (hleft : left.check ctx = .ok l) (hright : right.check ctx = .ok r)
    (hl : l.ty.integerInfo? = some (signed, bits))
    (hr : r.ty.integerInfo? = some (!signed, bits)) :
    (l.ty.isSizedInt = r.ty.isSizedInt → ∃ problem,
      (problem = .signsDiffer l.ty r.ty ∨ problem = .signsDifferAtWidth l.ty r.ty) ∧
      (Expr.binary op left right span).check ctx = .error ⟨l.span.combine r.span, problem⟩) ∧
    (l.ty.isSizedInt = false → r.ty.isSizedInt = true →
      (Expr.binary op left right span).check ctx =
        .ok (.binary (op.resultType l.ty) span op l (r.castTo l.ty))) ∧
    (l.ty.isSizedInt = true → r.ty.isSizedInt = false →
      (Expr.binary op left right span).check ctx =
        .ok (.binary (op.resultType r.ty) span op (l.castTo r.ty) r)) := by
  have hcheck : (Expr.binary op left right span).check ctx = Typing.binary op l r span := by
    unfold check
    simp [hleft, hright, bind, Except.bind]
  have hl' := Ty.isInteger_of_integerInfo? hl
  have hr' := Ty.isInteger_of_integerInfo? hr
  -- the types are not the same, so one operand does stand under a cast
  have hne : l.ty ≠ r.ty := by
    intro heq
    rw [heq, hr] at hl
    simp at hl
  rw [hcheck]
  refine ⟨fun hkind => ?_, fun hplatform hsized => ?_, fun hsized hplatform => ?_⟩
  · rcases commonType_of_opposite hl hr hkind with hcommon | hcommon
    · exact ⟨_, Or.inl rfl, Typing.binary_eq_error hop hl' hr' hcommon⟩
    · exact ⟨_, Or.inr rfl, Typing.binary_eq_error hop hl' hr' hcommon⟩
  · rw [Typing.binary_eq_ok hop hl' hr' hl' (commonType_of_platform hl hr hplatform hsized).1,
      Typed.Expr.widenTo_self, Typed.Expr.widenTo, if_neg hne.symm]
  · have hl : l.ty.integerInfo? = some (!!signed, bits) := by simpa using hl
    rw [Typing.binary_eq_ok hop hl' hr' hr' (commonType_of_platform hr hl hplatform hsized).2,
      Typed.Expr.widenTo_self, Typed.Expr.widenTo, if_neg hne]

/-- Two variables of the given types. -/
def pairContext (a b : Ty) : Context :=
  ⟨[⟨"a", .binding, .nowhere, a⟩, ⟨"b", .binding, .nowhere, b⟩],
    ⟨[⟨some 0, [("a", 0), ("b", 1)], none⟩], .empty none none, ⟨rfl, rfl⟩⟩⟩

/-- An operator over the two variables. -/
def pairOf (op : BinaryOp) : Expr :=
  .binary op (.name ⟨"a", .nowhere⟩) (.name ⟨"b", .nowhere⟩) .nowhere

theorem check_pair (a b : Ty) :
    check (pairContext a b) (.name ⟨"a", .nowhere⟩) = .ok (.load a .nowhere 0) ∧
    check (pairContext a b) (.name ⟨"b", .nowhere⟩) = .ok (.load b .nowhere 1) := by
  constructor <;>
  · unfold check Typing.name
    rw [ScopeStack.lookup_eq]
    rfl

theorem check_binary_of_opposite_signs_pair :
    (∃ problem, (pairOf .lt).check (pairContext (.sizedInt true 32) (.sizedInt false 32)) =
      .error ⟨Span.nowhere.combine .nowhere, problem⟩) ∧
    (pairOf .add).check (pairContext (.sizedInt false 64) (.int true)) =
      .ok (.binary (.int true) .nowhere .add
        ((Typed.Expr.load (.sizedInt false 64) .nowhere 0).castTo (.int true))
        (.load (.int true) .nowhere 1)) := by
  obtain ⟨ha, hb⟩ := check_pair (.sizedInt true 32) (.sizedInt false 32)
  obtain ⟨hrefused, -, -⟩ := check_binary_of_opposite_signs .nowhere
    (show BinaryOp.isLogical .lt = false from rfl) ha hb rfl rfl
  obtain ⟨ha, hb⟩ := check_pair (.sizedInt false 64) (.int true)
  obtain ⟨-, -, hcast⟩ := check_binary_of_opposite_signs .nowhere
    (show BinaryOp.isLogical .add = false from rfl) ha hb rfl rfl
  obtain ⟨problem, -, hproblem⟩ := hrefused rfl
  exact ⟨⟨problem, hproblem⟩, hcast rfl rfl⟩

/-- A signed integer of the platform and an unsigned one of 64 bits are of one width and have
opposite signs, and yet they are added: the second one is cast. -/
theorem check_sum_of_platform_and_sized :
    (∃ bits, (Ty.int true).integerInfo? = some (true, bits) ∧
      (Ty.sizedInt false 64).integerInfo? = some (false, bits)) ∧
    check (pairContext (.int true) (.sizedInt false 64)) (.name ⟨"a", .nowhere⟩) =
      .ok (.load (.int true) .nowhere 0) ∧
    check (pairContext (.int true) (.sizedInt false 64)) (.name ⟨"b", .nowhere⟩) =
      .ok (.load (.sizedInt false 64) .nowhere 1) ∧
    (pairOf .add).check (pairContext (.int true) (.sizedInt false 64)) =
      .ok (.binary (.int true) .nowhere .add (.load (.int true) .nowhere 0)
        (.cast (.int true) .nowhere (.load (.sizedInt false 64) .nowhere 1))) := by
  obtain ⟨ha, hb⟩ := check_pair (.int true) (.sizedInt false 64)
  refine ⟨⟨64, rfl, rfl⟩, ha, hb, ?_⟩
  rw [pairOf, check, ha, hb]
  rfl

end Expr

end Laye
