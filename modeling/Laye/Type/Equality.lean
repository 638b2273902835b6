import Laye.Type.Basic

/-!
# Equality of types is decidable

`Ty.same` compares two types node by node. It answers `true` exactly on equal types
(`Ty.same_iff`), which makes equality of types decidable.
-/

namespace Laye

mutual

/-- Whether two types are built alike. -/
def Ty.same : Ty → Ty → Bool
  | .void, other => match other with
    | .void => true
    | _ => false
  | .bool, other => match other with
    | .bool => true
    | _ => false
  | .rune, other => match other with
    | .rune => true
    | _ => false
  | .int a, other => match other with
    | .int b => a == b
    | _ => false
  | .sizedInt a m, other => match other with
    | .sizedInt b n => a == b && m == n
    | _ => false
  | .float, other => match other with
    | .float => true
    | _ => false
  | .sizedFloat m, other => match other with
    | .sizedFloat n => m == n
    | _ => false
  | .rawptr, other => match other with
    | .rawptr => true
    | _ => false
  | .array a m x, other => match other with
    | .array b n y => a.same b && m == n && x == y
    | _ => false
  | .pointer a x, other => match other with
    | .pointer b y => a.same b && x == y
    | _ => false
  | .buffer a x, other => match other with
    | .buffer b y => a.same b && x == y
    | _ => false
  | .slice a x, other => match other with
    | .slice b y => a.same b && x == y
    | _ => false
  | .string, other => match other with
    | .string => true
    | _ => false
  | .function f, other => match other with
    | .function g => f.same g
    | _ => false
  | .struct m ps fs, other => match other with
    | .struct n qs gs => m == n && TypeParam.allSame ps qs && Ty.fieldsSame fs gs
    | _ => false
  | .union m ps fs, other => match other with
    | .union n qs gs => m == n && TypeParam.allSame ps qs && Ty.fieldsSame fs gs
    | _ => false
  | .structRef m, other => match other with
    | .structRef n => m == n
    | _ => false
  | .enum m fs, other => match other with
    | .enum n gs => m == n && fs == gs
    | _ => false
  | .param m, other => match other with
    | .param n => m == n
    | _ => false
  | .untypedInt a, other => match other with
    | .untypedInt b => a == b
    | _ => false
  | .untypedFloat, other => match other with
    | .untypedFloat => true
    | _ => false
  | .untypedBool, other => match other with
    | .untypedBool => true
    | _ => false
  | .untypedString, other => match other with
    | .untypedString => true
    | _ => false
termination_by structural a => a

/-- Whether two function types are built alike. -/
def Signature.same : Signature → Signature → Bool
  | ⟨m, ps, c, a, fs, v⟩, ⟨n, qs, d, b, gs, w⟩ =>
    m == n && TypeParam.allSame ps qs && c == d && a.same b && Ty.fieldsSame fs gs && v == w
termination_by structural a => a

/-- Whether two generic parameters are built alike. -/
def TypeParam.same : TypeParam → TypeParam → Bool
  | .type m, .type n => m == n
  | .constant a m, .constant b n => a.same b && m == n
  | _, _ => false
termination_by structural a => a

/-- Whether two lists of generic parameters are built alike. -/
def TypeParam.allSame : List TypeParam → List TypeParam → Bool
  | [], [] => true
  | p :: ps, q :: qs => p.same q && TypeParam.allSame ps qs
  | _, _ => false
termination_by structural a => a

/-- Whether two lists of fields are built alike. -/
def Ty.fieldsSame : List (String × Ty) → List (String × Ty) → Bool
  | [], [] => true
  | (m, a) :: fs, (n, b) :: gs => m == n && a.same b && Ty.fieldsSame fs gs
  | _, _ => false
termination_by structural a => a

end

mutual

theorem Ty.eq_of_same : (a b : Ty) → a.same b = true → a = b
  | .void, _, h | .bool, _, h | .rune, _, h | .float, _, h | .rawptr, _, h | .string, _, h
  | .untypedFloat, _, h | .untypedBool, _, h | .untypedString, _, h => by
    unfold Ty.same at h
    split at h
    · rfl
    · cases h
  | .int _, _, h | .untypedInt _, _, h | .sizedInt _ _, _, h | .sizedFloat _, _, h
  | .structRef _, _, h | .param _, _, h | .enum _ _, _, h => by
    unfold Ty.same at h
    split at h
    · simp_all
    · cases h
  | .array a _ _, _, h => by
    unfold Ty.same at h
    split at h
    · simp only [Bool.and_eq_true, beq_iff_eq] at h
      rw [a.eq_of_same _ h.1.1, h.1.2, h.2]
    · cases h
  | .pointer a _, _, h | .buffer a _, _, h | .slice a _, _, h => by
    unfold Ty.same at h
    split at h
    · simp only [Bool.and_eq_true, beq_iff_eq] at h
      rw [a.eq_of_same _ h.1, h.2]
    · cases h
  | .function f, _, h => by
    unfold Ty.same at h
    split at h
    · rw [f.eq_of_same _ h]
    · cases h
  | .struct _ ps fs, _, h | .union _ ps fs, _, h => by
    unfold Ty.same at h
    split at h
    · simp only [Bool.and_eq_true, beq_iff_eq] at h
      rw [h.1.1, TypeParam.eq_of_allSame ps _ h.1.2, Ty.eq_of_fieldsSame fs _ h.2]
    · cases h

theorem Signature.eq_of_same : (f g : Signature) → f.same g = true → f = g
  | ⟨_, ps, _, a, fs, _⟩, ⟨_, qs, _, b, gs, _⟩ => by
    simp only [Signature.same, Bool.and_eq_true, beq_iff_eq]
    rintro ⟨⟨⟨⟨⟨hn, hp⟩, hc⟩, ha⟩, hf⟩, hv⟩
    have hp := TypeParam.eq_of_allSame ps qs hp
    have ha := a.eq_of_same b ha
    have hf := Ty.eq_of_fieldsSame fs gs hf
    simp_all

theorem TypeParam.eq_of_same : (p q : TypeParam) → p.same q = true → p = q
  | .type _, q => by cases q <;> simp [TypeParam.same]
  | .constant a _, q => by
    cases q <;> simp [TypeParam.same]
    case constant b _ => intro h; have := a.eq_of_same b h; simp_all

theorem TypeParam.eq_of_allSame : (ps qs : List TypeParam) →
    TypeParam.allSame ps qs = true → ps = qs
  | [], qs => by cases qs <;> simp [TypeParam.allSame]
  | p :: ps, [] => by simp [TypeParam.allSame]
  | p :: ps, q :: qs => by
    simp only [TypeParam.allSame, Bool.and_eq_true]
    rintro ⟨h, hs⟩
    rw [p.eq_of_same q h, TypeParam.eq_of_allSame ps qs hs]

theorem Ty.eq_of_fieldsSame : (fs gs : List (String × Ty)) →
    Ty.fieldsSame fs gs = true → fs = gs
  | [], gs => by cases gs <;> simp [Ty.fieldsSame]
  | (_, _) :: _, [] => by simp [Ty.fieldsSame]
  | (_, a) :: fs, (_, b) :: gs => by
    simp only [Ty.fieldsSame, Bool.and_eq_true, beq_iff_eq]
    rintro ⟨⟨hn, ha⟩, hs⟩
    rw [hn, a.eq_of_same b ha, Ty.eq_of_fieldsSame fs gs hs]

end

mutual

theorem Ty.same_refl : (a : Ty) → a.same a = true
  | .void | .bool | .rune | .float | .rawptr | .string | .untypedFloat | .untypedBool
  | .untypedString => rfl
  | .int a | .untypedInt a => beq_self_eq_true a
  | .sizedFloat m => beq_self_eq_true m
  | .structRef n | .param n => beq_self_eq_true n
  | .sizedInt a m => by
    show (a == a && m == m) = true
    simp
  | .enum n vs => by
    show (n == n && vs == vs) = true
    simp
  | .array a m x => by
    show (a.same a && m == m && x == x) = true
    simp [a.same_refl]
  | .pointer a x | .buffer a x | .slice a x => by
    show (a.same a && x == x) = true
    simp [a.same_refl]
  | .function f => f.same_refl
  | .struct n ps fs | .union n ps fs => by
    show (n == n && TypeParam.allSame ps ps && Ty.fieldsSame fs fs) = true
    simp [TypeParam.allSame_refl ps, Ty.fieldsSame_refl fs]

theorem Signature.same_refl : (f : Signature) → f.same f = true
  | ⟨_, ps, _, a, fs, _⟩ => by
    simp [Signature.same, a.same_refl, TypeParam.allSame_refl ps, Ty.fieldsSame_refl fs]

theorem TypeParam.same_refl : (p : TypeParam) → p.same p = true
  | .type _ => by simp [TypeParam.same]
  | .constant a _ => by simp [TypeParam.same, a.same_refl]

theorem TypeParam.allSame_refl : (ps : List TypeParam) → TypeParam.allSame ps ps = true
  | [] => rfl
  | p :: ps => by simp [TypeParam.allSame, p.same_refl, TypeParam.allSame_refl ps]

theorem Ty.fieldsSame_refl : (fs : List (String × Ty)) → Ty.fieldsSame fs fs = true
  | [] => rfl
  | (_, a) :: fs => by simp [Ty.fieldsSame, a.same_refl, Ty.fieldsSame_refl fs]

end

/-- `Ty.same` decides equality of types. -/
theorem Ty.same_iff (a b : Ty) : a.same b = true ↔ a = b :=
  ⟨a.eq_of_same b, fun h => h ▸ a.same_refl⟩

/-- `Signature.same` decides equality of function types. -/
theorem Signature.same_iff (f g : Signature) : f.same g = true ↔ f = g :=
  ⟨f.eq_of_same g, fun h => h ▸ f.same_refl⟩

instance : DecidableEq Ty := fun a b => decidable_of_iff _ (a.same_iff b)

instance : DecidableEq Signature := fun f g => decidable_of_iff _ (f.same_iff g)

end Laye
