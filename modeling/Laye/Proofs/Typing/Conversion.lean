import Laye.Proofs.Typing.Judgement

/-!
# What conversions do

All that a conversion makes of an expression is listed in `Typed.Expr.Adjusts`, with the reason why
it may. There are several ways to convert: to a type that the context asks for, to one of the
literal's own, to one that C passes as it is, and to a common type of two operands. For each of them
a lemma says that it does what is on the list and which type comes out. The ways in which two
operands are brought together have a list of their own (`Typed.Expr.Unifies`).

What checking makes of an expression is well typed, or it is a literal that has no type yet
(`Typed.Expr.Checked`). Whatever is converted from there is well typed
(`Typed.Expr.Settles.wellTyped`). -/

namespace Laye

variable {ε α : Type} {x : Except ε α} {ty source target : Ty}

/-- Two steps succeed if the first does and the second does with its result. -/
theorem Typing.bind_eq_ok {β : Type} {f : α → Except ε β} {b : β} :
    (x >>= f) = .ok b ↔ ∃ a, x = .ok a ∧ f a = .ok b := by
  cases x with
  | error e | ok a => simp [bind, Except.bind]

theorem Typing.unless_eq_ok {c : Prop} [Decidable c] {e : ε} {a : α}
    (h : (if c then (do .error e; x : Except ε α) else x) = .ok a) : x = .ok a := by
  split at h
  · obtain ⟨_, hrefused, -⟩ := Typing.bind_eq_ok.mp h
    cases hrefused
  · exact h

theorem Typing.not_of_unless {c : Prop} [Decidable c] {e : ε} {a : α}
    (h : (if c then (do .error e; x : Except ε α) else x) = .ok a) : ¬ c := by
  intro hc
  rw [if_pos hc] at h
  cases h

theorem Ty.eq_void_of_isVoid (h : ty.isVoid = true) : ty = .void := by
  cases ty with
  | void => rfl
  | _ => cases h

theorem Ty.isUntyped_of_isInteger (h : ty.isInteger = true) : ty.isUntyped = false := by
  cases ty with
  | int _ | sizedInt _ _ => rfl
  | _ => cases h

theorem Ty.CastsTo.isUntyped (h : source.CastsTo target) : source.isUntyped = false := by
  cases h with
  | integerToFloat h => exact Ty.isUntyped_of_isInteger h
  | _ => rfl

namespace Typed.Expr

/-- A literal that has no type yet. -/
inductive Literal : Expr → Prop where
  | integer (signed : Bool) (span : Span) (magnitude : Nat) (negative : Bool) :
      Literal (.integer (.untypedInt signed) span magnitude negative)
  | float (span : Span) (value : Float) : Literal (.float .untypedFloat span value)
  | bool (span : Span) (value : Bool) : Literal (.bool .untypedBool span value)
  | string (span : Span) (value : String) : Literal (.string .untypedString span value)

/-- What checking makes of an expression. -/
def Checked (symbols : SymbolTable) (e : Expr) : Prop := e.WellTyped symbols ∨ e.Literal

variable {symbols : SymbolTable} {e e' left right left' right' : Expr} {target : Ty}

theorem Literal.isUntyped (h : e.Literal) : e.ty.isUntyped = true := by
  cases h <;> rfl

theorem Checked.literal (h : e.Checked symbols) (hsymbols : symbols.Grounded)
    (huntyped : e.ty.isUntyped = true) : e.Literal := by
  refine h.resolve_left fun hwell => ?_
  rw [(hwell.grounded hsymbols).isUntyped] at huntyped
  cases huntyped

theorem Checked.wellTyped_of_isPlace {isBinding : SymbolId → Bool} (h : e.Checked symbols)
    (hplace : e.isPlace isBinding = true) : e.WellTyped symbols := by
  refine h.resolve_right fun hliteral => ?_
  cases hliteral <;> cases hplace

theorem Checked.wellTyped (h : e.Checked symbols) (htyped : e.ty.isUntyped = false) :
    e.WellTyped symbols := by
  refine h.resolve_right fun hliteral => ?_
  rw [hliteral.isUntyped] at htyped
  cases htyped

@[simp] theorem ty_retype (ty : Ty) (e : Expr) : (e.retype ty).ty = ty := by
  cases e <;> rfl

/-! ### Literals -/

theorem literalAs_eq_ok (h : e.literalAs target = .ok e') :
    ∃ ty span magnitude negative, e = .integer ty span magnitude negative ∧
      e' = .integer target span magnitude negative := by
  unfold literalAs at h
  split at h
  · rename_i ty span magnitude negative
    split at h
    · cases h
    · cases h
      exact ⟨ty, span, magnitude, negative, rfl, rfl⟩
  · cases h

theorem ty_literalAs (h : e.literalAs target = .ok e') : e'.ty = target := by
  obtain ⟨_, _, _, _, -, rfl⟩ := literalAs_eq_ok h
  rfl

@[simp] theorem ty_literalToFloat (e : Expr) (target : Ty) :
    (e.literalToFloat target).ty = target := by
  cases e <;> rfl

theorem literalAs_wellTyped (hinteger : target.isInteger = true)
    (h : e.literalAs target = .ok e') : e'.WellTyped symbols := by
  obtain ⟨_, span, magnitude, negative, -, rfl⟩ := literalAs_eq_ok h
  exact .integer span magnitude negative hinteger

theorem Literal.toFloat_wellTyped {signed : Bool} (h : e.Literal) (hty : e.ty = .untypedInt signed)
    (htarget : target = .float ∨ ∃ bits, target = .sizedFloat bits) :
    (e.literalToFloat target).WellTyped symbols := by
  cases h with
  | integer _ span _ _ => exact .float span _ htarget
  | _ => cases hty

theorem Literal.retype_wellTyped (h : e.Literal)
    (htypes : (e.ty = .untypedFloat ∧ (target = .float ∨ ∃ bits, target = .sizedFloat bits)) ∨
      (e.ty = .untypedBool ∧ target = .bool) ∨
      (e.ty = .untypedString ∧ (target = .string ∨ target = .cString))) :
    (e.retype target).WellTyped symbols := by
  cases h with
  | integer => simp [ty] at htypes
  | float span value => exact .float span value (by simpa [ty] using htypes)
  | bool span value =>
    obtain rfl : target = .bool := by simpa [ty] using htypes
    exact .bool span value
  | string span value => exact .string span value (by simpa [ty] using htypes)

end Typed.Expr

/-! ### The table of conversions -/

/-- What a conversion says of the two types. -/
def Conversion.Fits (source target : Ty) : Conversion → Prop
  | .keep => source = target
  | .literal => (∃ signed, source = .untypedInt signed) ∧ target.isInteger = true
  | .address => (∃ signed, source = .untypedInt signed) ∧ target = .rawptr
  | .toFloat => (∃ signed, source = .untypedInt signed) ∧
      (target = .float ∨ ∃ bits, target = .sizedFloat bits)
  | .retype => (source = .untypedFloat ∧ (target = .float ∨ ∃ bits, target = .sizedFloat bits)) ∨
      (source = .untypedBool ∧ target = .bool) ∨
      (source = .untypedString ∧ (target = .string ∨ target = .cString))
  | .cast => source.CastsTo target
  | .materialize => (∃ access, source = .slice .u8 access) ∧ target = .string

theorem Conversion.fits_of_between {c : Conversion}
    (h : Conversion.between source target = some c) : c.Fits source target := by
  unfold Conversion.between at h
  split at h
  · cases h
    assumption
  · split at h
    · split at h <;> cases h <;> simp [Fits, Ty.isInteger]
    · split at h <;> cases h <;> simp [Fits]
    · split at h <;> cases h
      simp [Fits]
    · split at h <;> cases h
      rename_i heq
      simp [Fits, heq]
    · split at h <;> cases h
      exact .rawptrToBuffer _ _
    · split at h
      · split at h <;> cases h
        rename_i heq
        exact heq ▸ .pointer _ _
      · cases h
    · split at h
      · split at h <;> cases h
        rename_i heq
        exact heq ▸ .buffer _ _
      · cases h
        exact .bufferToRawptr _
      · cases h
    · split at h
      · split at h <;> cases h
        rename_i heq
        obtain ⟨rfl, rfl⟩ := heq
        exact .slice _ _
      · split at h <;> cases h
        rename_i heq
        simp [Fits, heq]
      · cases h
    · cases h

/-! ### What conversions do -/

/-- The types that literals have when nothing else decides. -/
def Ty.defaults : List Ty := [.int true, .int false, .float, .bool, .string]

/-- The types that conversions choose without being asked. -/
def Ty.chosen : List Ty :=
  Ty.defaults ++ [.sizedInt true 32, .sizedInt false 32, .f64, .cString]

theorem Ty.promoted_of_mem_defaults (h : ty ∈ Ty.defaults) : ty.Promoted := by
  simp only [Ty.defaults, List.mem_cons, List.not_mem_nil, or_false] at h
  rcases h with rfl | rfl | rfl | rfl | rfl <;> constructor <;> simp

namespace Typed.Expr

/-- What a conversion makes of an expression, and why it may. -/
inductive Adjusts (e : Expr) : Expr → Prop where
  | same : Adjusts e e
  /-- An integer literal that is in range. -/
  | literal {e' : Expr} {signed : Bool} {ty : Ty} (hty : e.ty = .untypedInt signed)
      (hinteger : ty.isInteger = true) (h : e.literalAs ty = .ok e') : Adjusts e e'
  | address {e' : Expr} {signed : Bool} (hty : e.ty = .untypedInt signed)
      (h : e.literalAs (.int false) = .ok e') : Adjusts e (e'.castTo .rawptr)
  | toFloat {signed : Bool} {ty : Ty} (hty : e.ty = .untypedInt signed)
      (hfloat : ty = .float ∨ ∃ bits, ty = .sizedFloat bits) : Adjusts e (e.literalToFloat ty)
  | retype {ty : Ty} (hfits : Conversion.Fits e.ty ty .retype) : Adjusts e (e.retype ty)
  | cast {ty : Ty} (hcast : e.ty.CastsTo ty) : Adjusts e (e.castTo ty)
  | materialize {access : Access} (hslice : e.ty = .slice .u8 access) :
      Adjusts e (e.materializeTo .string)

/-- The expression is adjusted and has a type of its own then, which is the one it had or satisfies
`T`. -/
def Settles (T : Ty → Prop) (e e' : Expr) : Prop :=
  e.Adjusts e' ∧ (e' = e ∧ e.ty.isUntyped = false ∨ T e'.ty)

variable {symbols : SymbolTable} {T : Ty → Prop} {e e' left right left' right' : Expr} {target : Ty}

theorem Settles.same (h : e.ty.isUntyped = false) : Settles T e e := ⟨.same, .inl ⟨rfl, h⟩⟩

theorem convertTo_adjusts (h : e.convertTo target = .ok e') : e.Adjusts e' ∧ e'.ty = target := by
  unfold convertTo at h
  cases hconversion : Conversion.between e.ty target with
  | none =>
    rw [hconversion] at h
    cases h
  | some c =>
    rw [hconversion] at h
    have hfits := Conversion.fits_of_between hconversion
    cases c with
    | keep =>
      cases h
      exact ⟨.same, hfits⟩
    | literal =>
      obtain ⟨⟨_, hsource⟩, hinteger⟩ := hfits
      exact ⟨.literal hsource hinteger h, ty_literalAs h⟩
    | address =>
      obtain ⟨_, hinner, hcast⟩ := Typing.bind_eq_ok.mp h
      cases hcast
      obtain ⟨⟨_, hsource⟩, rfl⟩ := hfits
      exact ⟨.address hsource hinner, rfl⟩
    | toFloat =>
      cases h
      obtain ⟨⟨_, hsource⟩, hfloat⟩ := hfits
      exact ⟨.toFloat hsource hfloat, ty_literalToFloat e target⟩
    | retype =>
      cases h
      exact ⟨.retype hfits, ty_retype target e⟩
    | cast =>
      cases h
      exact ⟨.cast hfits, rfl⟩
    | materialize =>
      cases h
      obtain ⟨⟨_, hsource⟩, rfl⟩ := hfits
      exact ⟨.materialize hsource, rfl⟩

/-- A converted expression settles at the type that is asked for. -/
theorem convertTo_settles (htarget : T target) (h : e.convertTo target = .ok e') :
    Settles T e e' ∧ e'.ty = target := by
  obtain ⟨hadjusts, rfl⟩ := convertTo_adjusts h
  exact ⟨⟨hadjusts, .inr htarget⟩, rfl⟩

theorem withDefaultType_cases (h : e.withDefaultType = .ok e') :
    (e' = e ∧ e.ty.isUntyped = false) ∨ e.Adjusts e' ∧ e'.ty ∈ Ty.defaults := by
  unfold withDefaultType at h
  split at h
  · rename_i signed hty
    refine .inr ⟨.literal hty rfl h, ?_⟩
    rw [ty_literalAs h]
    cases signed <;> simp [Ty.defaults]
  · rename_i hty
    cases h
    exact .inr ⟨.retype (.inl ⟨hty, .inl rfl⟩), by simp [Ty.defaults]⟩
  · rename_i hty
    cases h
    exact .inr ⟨.retype (.inr (.inl ⟨hty, rfl⟩)), by simp [Ty.defaults]⟩
  · rename_i hty
    cases h
    exact .inr ⟨.retype (.inr (.inr ⟨hty, .inl rfl⟩)), by simp [Ty.defaults]⟩
  · rename_i hint hfloat hbool hstring
    cases h
    refine .inl ⟨rfl, ?_⟩
    cases hty : e.ty with
    | untypedInt signed => exact (hint signed hty).elim
    | untypedFloat => exact (hfloat hty).elim
    | untypedBool => exact (hbool hty).elim
    | untypedString => exact (hstring hty).elim
    | _ => rfl

section

variable (hT : ∀ ty ∈ Ty.chosen, T ty)
include hT

/-- An expression that stands alone settles, a literal at its default type. -/
theorem withDefaultType_settles (h : e.withDefaultType = .ok e') : Settles T e e' := by
  rcases withDefaultType_cases h with ⟨rfl, htyped⟩ | ⟨hadjusts, hty⟩
  · exact .same htyped
  · exact ⟨hadjusts, .inr (hT _ (List.mem_append_left _ hty))⟩

/-- A variadic argument settles at a promoted type. -/
theorem promoted_settles (h : e.promoted = .ok e') : Settles T e e' ∧ e'.ty.Promoted := by
  have hchosen : ∀ {e' : Expr}, e.Adjusts e' → e'.ty ∈ Ty.chosen → Settles T e e' :=
    fun hadjusts hty => ⟨hadjusts, .inr (hT _ hty)⟩
  unfold promoted at h
  split at h
  · rename_i hty
    cases h
    have hadjusts : e.Adjusts (e.retype .cString) := .retype (.inr (.inr ⟨hty, .inr rfl⟩))
    refine ⟨hchosen hadjusts (by simp [Ty.chosen]), ?_⟩
    constructor <;> simp [Ty.cString, Ty.bufferOf]
  · rename_i signed bits hty
    split at h
    · rename_i hlt
      cases h
      have hadjusts : e.Adjusts (e.castTo (.sizedInt signed 32)) :=
        .cast (by rw [hty]; exact .wider signed bits signed hlt)
      refine ⟨hchosen hadjusts (by cases signed <;> simp [castTo, ty, Ty.chosen]), ?_⟩
      constructor <;> simp [castTo, ty]
    · rename_i hlt
      cases h
      refine ⟨.same (by rw [hty]; rfl), ?_⟩
      rw [hty]
      constructor <;> simp
      omega
  · rename_i bits hty
    split at h
    · rename_i hlt
      cases h
      have hadjusts : e.Adjusts (e.castTo .f64) := .cast (by rw [hty]; exact .double hlt)
      refine ⟨hchosen hadjusts (by simp [castTo, ty, Ty.chosen]), ?_⟩
      constructor <;> simp [castTo, ty, Ty.f64]
    · rename_i hlt
      cases h
      refine ⟨.same (by rw [hty]; rfl), ?_⟩
      rw [hty]
      constructor <;> simp
      omega
  · cases h
  · rename_i _ hint hfloat hvoid
    refine ⟨withDefaultType_settles hT h, ?_⟩
    rcases withDefaultType_cases h with ⟨rfl, -⟩ | ⟨-, hty⟩
    · exact ⟨fun signed bits heq => (hint signed bits heq).elim,
        fun bits heq => (hfloat bits heq).elim, hvoid⟩
    · exact Ty.promoted_of_mem_defaults hty

end

theorem toFloat_adjusts (h : e.toFloat = .ok e') : e.Adjusts e' ∧ e'.ty = .float := by
  unfold toFloat at h
  split at h
  · rename_i hty
    cases h
    exact ⟨.same, hty⟩
  · rename_i hty
    cases h
    exact ⟨.retype (.inl ⟨hty, .inl rfl⟩), ty_retype _ _⟩
  · rename_i hty
    cases h
    exact ⟨.toFloat hty (.inl rfl), ty_literalToFloat _ _⟩
  · rename_i hty
    cases h
    exact ⟨.cast (by rw [hty]; exact .integerToFloat rfl), rfl⟩
  · rename_i hty
    cases h
    exact ⟨.cast (by rw [hty]; exact .integerToFloat rfl), rfl⟩
  · rename_i hty
    cases h
    exact ⟨.cast (by rw [hty]; exact .float _), rfl⟩
  · cases h

/-! ### Two operands -/

variable {leftTy rightTy ty : Ty}

theorem commonType_eq_ok (h : commonType leftTy rightTy = .ok ty) :
    (leftTy = ty ∧ rightTy = ty) ∨
      ty.isInteger = true ∧
        (leftTy = ty ∧ rightTy.CastsTo ty ∨ rightTy = ty ∧ leftTy.CastsTo ty) := by
  unfold commonType at h
  split at h
  · rename_i heq
    cases h
    exact .inl ⟨rfl, heq.symm⟩
  · refine .inr ?_
    cases leftTy with
    | int signed =>
      cases rightTy with
      | int _ => cases h
      | sizedInt other bits =>
        cases h
        exact ⟨rfl, .inl ⟨rfl, .platform other bits signed⟩⟩
      | _ => cases h
    | sizedInt signed bits =>
      cases rightTy with
      | int other =>
        cases h
        exact ⟨rfl, .inr ⟨rfl, .platform signed bits other⟩⟩
      | sizedInt other width =>
        simp only [Ty.integerInfo?] at h
        split at h
        · rename_i hlt
          cases h
          exact ⟨rfl, .inl ⟨rfl, .wider other width signed hlt⟩⟩
        · split at h
          · rename_i hlt
            cases h
            exact ⟨rfl, .inr ⟨rfl, .wider signed bits other hlt⟩⟩
          · cases h
      | _ => cases h
    | _ => cases h

theorem commonType_comm (h : commonType leftTy rightTy = .ok ty) :
    commonType rightTy leftTy = .ok ty := by
  by_cases heq : leftTy = rightTy
  · subst heq
    exact h
  · simp only [commonType, if_neg heq, if_neg (Ne.symm heq)] at h ⊢
    cases leftTy with
    | int _ =>
      cases rightTy with
      | sizedInt _ _ => exact h
      | _ => cases h
    | sizedInt _ bits =>
      cases rightTy with
      | int _ => exact h
      | sizedInt _ width =>
        simp only [Ty.integerInfo?] at h ⊢
        -- the two comparisons of the widths change places
        rcases Nat.lt_trichotomy bits width with hlt | rfl | hlt
        · rw [if_neg (Nat.lt_asymm hlt), if_pos hlt] at h
          rw [if_pos hlt]
          exact h
        · simp at h
        · rw [if_pos hlt] at h
          rw [if_neg (Nat.lt_asymm hlt), if_pos hlt]
          exact h
      | _ => cases h
    | _ => cases h

@[simp] theorem ty_widenTo (e : Expr) (ty : Ty) : (e.widenTo ty).ty = ty := by
  unfold widenTo
  split
  · assumption
  · rfl

theorem widenTo_self (e : Expr) : e.widenTo e.ty = e := if_pos rfl

/-- What two operands become when they are brought together. -/
inductive Unifies (left right : Expr) : Expr → Expr → Prop where
  /-- One of them is a float, and both become floats. -/
  | floats {left' right' : Expr} (hfloat : (left.ty.isFloatLike || right.ty.isFloatLike) = true)
      (hleft : left.toFloat = .ok left') (hright : right.toFloat = .ok right') :
      Unifies left right left' right'
  /-- Both are integer literals. Each gets the platform's type of its own sign. -/
  | literals {left' right' : Expr} {signed signed' : Bool} (hty : left.ty = .untypedInt signed)
      (hty' : right.ty = .untypedInt signed') (hleft : left.literalAs (.int signed) = .ok left')
      (hright : right.literalAs (.int signed') = .ok right') : Unifies left right left' right'
  | leftLiteral {left' : Expr} {signed : Bool} (hty : left.ty = .untypedInt signed)
      (hinteger : right.ty.isInteger = true) (hleft : left.literalAs right.ty = .ok left') :
      Unifies left right left' right
  | rightLiteral {right' : Expr} {signed : Bool} (hty : right.ty = .untypedInt signed)
      (hinteger : left.ty.isInteger = true) (hright : right.literalAs left.ty = .ok right') :
      Unifies left right left right'
  | concrete {ty : Ty} (hfloat : (left.ty.isFloatLike || right.ty.isFloatLike) = false)
      (htyped : (left.ty.isUntyped || right.ty.isUntyped) = false)
      (hcommon : commonType left.ty right.ty = .ok ty) :
      Unifies left right (left.widenTo ty) (right.widenTo ty)

theorem unifies_of_unify (h : left.unify right = .ok (left', right')) :
    Unifies left right left' right' := by
  unfold unify at h
  split at h
  · rename_i hfloat
    obtain ⟨l, hl, h⟩ := Typing.bind_eq_ok.mp h
    obtain ⟨r, hr, h⟩ := Typing.bind_eq_ok.mp h
    cases h
    exact .floats hfloat hl hr
  · rename_i hfloat
    split at h
    · rename_i hty hty'
      obtain ⟨l, hl, h⟩ := Typing.bind_eq_ok.mp h
      obtain ⟨r, hr, h⟩ := Typing.bind_eq_ok.mp h
      cases h
      exact .literals hty hty' hl hr
    · rename_i hty _
      split at h
      · rename_i hinteger
        obtain ⟨l, hl, h⟩ := Typing.bind_eq_ok.mp h
        cases h
        exact .leftLiteral hty hinteger hl
      · cases h
    · rename_i hty _
      split at h
      · rename_i hinteger
        obtain ⟨r, hr, h⟩ := Typing.bind_eq_ok.mp h
        cases h
        exact .rightLiteral hty hinteger hr
      · cases h
    · split at h
      · cases h
      · rename_i htyped
        unfold unifyConcrete at h
        split at h
        · rename_i hcommon
          cases h
          exact .concrete (by simpa using hfloat) (by simpa using htyped) hcommon
        · cases h

namespace Unifies

theorem symm (h : Unifies left right left' right') : Unifies right left right' left' := by
  cases h with
  | floats hfloat hleft hright => exact .floats (Bool.or_comm _ _ ▸ hfloat) hright hleft
  | literals hty hty' hleft hright => exact .literals hty' hty hright hleft
  | leftLiteral hty hinteger hleft => exact .rightLiteral hty hinteger hleft
  | rightLiteral hty hinteger hright => exact .leftLiteral hty hinteger hright
  | concrete hfloat htyped hcommon =>
    exact .concrete (Bool.or_comm _ _ ▸ hfloat) (Bool.or_comm _ _ ▸ htyped)
      (commonType_comm hcommon)

/-- The results have one type, unless two literals of different signs got the platform's two integer
types. -/
theorem types (h : Unifies left right left' right') : left'.ty = right'.ty ∨
    (∃ signed, left.ty = .untypedInt signed ∧ right.ty = .untypedInt !signed) ∧
      MixedLiterals left' right' := by
  cases h with
  | floats _ hleft hright =>
    exact .inl ((toFloat_adjusts hleft).2.trans (toFloat_adjusts hright).2.symm)
  | @literals _ _ signed signed' hty hty' hleft hright =>
    obtain ⟨_, _, _, _, -, rfl⟩ := literalAs_eq_ok hleft
    obtain ⟨_, _, _, _, -, rfl⟩ := literalAs_eq_ok hright
    by_cases hsigned : signed' = signed
    · exact .inl (by rw [hsigned]; rfl)
    · obtain rfl : signed' = !signed := by cases signed <;> cases signed' <;> simp_all
      exact .inr ⟨⟨signed, hty, hty'⟩, ⟨_, _, _, _, _, _, _⟩⟩
  | leftLiteral _ _ hleft => exact .inl (ty_literalAs hleft)
  | rightLiteral _ _ hright => exact .inl (ty_literalAs hright).symm
  | concrete => exact .inl (by simp)

theorem settles (h : Unifies left right left' right') (hT : ∀ ty ∈ Ty.chosen, T ty)
    (hother : right.ty.isInteger = true → T right.ty) : Settles T left left' := by
  cases h with
  | floats _ hleft _ =>
    obtain ⟨hadjusts, hty⟩ := toFloat_adjusts hleft
    exact ⟨hadjusts, .inr (hty ▸ hT _ (by simp [Ty.chosen, Ty.defaults]))⟩
  | @literals _ _ signed _ hty _ hleft _ =>
    refine ⟨.literal hty rfl hleft, .inr (ty_literalAs hleft ▸ hT _ ?_)⟩
    cases signed <;> simp [Ty.chosen, Ty.defaults]
  | leftLiteral hty hinteger hleft =>
    exact ⟨.literal hty hinteger hleft, .inr (ty_literalAs hleft ▸ hother hinteger)⟩
  | rightLiteral _ hinteger _ => exact .same (Ty.isUntyped_of_isInteger hinteger)
  | concrete _ htyped hcommon =>
    have hsame : left.widenTo left.ty = left := widenTo_self left
    have hleft : left.ty.isUntyped = false := (Bool.or_eq_false_iff.mp htyped).1
    rcases commonType_eq_ok hcommon with ⟨rfl, -⟩ | ⟨hinteger, ⟨rfl, -⟩ | ⟨rfl, hcast⟩⟩
    · exact hsame.symm ▸ .same hleft
    · exact hsame.symm ▸ .same hleft
    · unfold widenTo
      split
      · exact .same hleft
      · exact ⟨.cast hcast, .inr (hother hinteger)⟩

end Unifies

/-! ### Well-typed expressions -/

theorem Settles.wellTyped (h : Settles (Ty.Grounded symbols.IsStruct) e e')
    (hsymbols : symbols.Grounded) (he : e.Checked symbols) : e'.WellTyped symbols := by
  obtain ⟨hadjusts, ⟨rfl, htyped⟩ | hty⟩ := h
  · exact he.wellTyped htyped
  · have huntyped : ∀ {ty : Ty}, e.ty = ty → ty.isUntyped = true → e.Literal := fun hty hu =>
      he.literal hsymbols (hty ▸ hu)
    cases hadjusts with
    | same => exact he.wellTyped hty.isUntyped
    | literal _ hinteger h => exact literalAs_wellTyped hinteger h
    | address _ h =>
      have hinner : (_ : Expr).ty = .int false := ty_literalAs h
      exact .cast _ (literalAs_wellTyped rfl h) (by rw [hinner]; exact .address) hty
    | toFloat hsource hfloat => exact (huntyped hsource rfl).toFloat_wellTyped hsource hfloat
    | retype hfits =>
      have hliteral : e.Literal := by
        rcases hfits with ⟨hsource, -⟩ | ⟨hsource, -⟩ | ⟨hsource, -⟩ <;>
          exact huntyped hsource rfl
      exact hliteral.retype_wellTyped hfits
    | cast hcast => exact .cast _ (he.wellTyped hcast.isUntyped) hcast hty
    | materialize hslice => exact .materialize _ (he.wellTyped (by rw [hslice]; rfl)) hslice

end Typed.Expr

end Laye
