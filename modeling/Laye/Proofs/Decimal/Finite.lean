import Laye.Decimal.Numeral
import Laye.Decimal.Shortest
import Mathlib

/-!
# The floats that numerals denote are finite

`Numeral.isFinite_of_toFloat?`: whatever is written, the reader gives a finite float or none.

A product that overflows is refused, and no product of finite floats is NaN. A quotient is not
checked, and it need not be: the significand is below `2 ^ 64`, a power of ten is at least one, and
there are at most three divisions. How far a float is from overflow is said by the exponent of its
mantissa (`ExponentAtMost`), which a division raises by less than 60.
-/

namespace Laye.Numeral

open Float.Model Float.Model.UnpackedFloat

/-- Zero, or a number whose exponent is at most `top`. -/
def ExponentAtMost (top : Int) : UnpackedFloat → Prop
  | .zero _ => True
  | .finite _ _ e _ => e ≤ top
  | _ => False

/-- A number with an exponent of at least `low`. -/
inductive ExponentAtLeast (low : Int) : UnpackedFloat → Prop
  | finite {sign : Sign} {m : Nat} {e : Int} {hm : 0 < m} (h : low ≤ e) :
      ExponentAtLeast low (.finite sign m e hm)

variable {u : UnpackedFloat} {top low e : Int} {m k n : Nat} {x p : Float} {exponent : BitVec 11}

/-- A number whose exponent is bounded is finite. -/
theorem ExponentAtMost.isFinite (h : ExponentAtMost top u) : u.isFinite = true := by
  cases u with
  | infinity _ | notANumber => exact h.elim
  | zero _ | finite _ m e _ => rfl

theorem ExponentAtLeast.isFinite (h : ExponentAtLeast low u) : u.isFinite = true := by
  cases h
  rfl

theorem isFinite_cases (h : u.isFinite = true) :
    (∃ sign, u = .zero sign) ∨ ∃ sign m e hm, u = .finite sign m e hm := by
  cases u with
  | infinity _ | notANumber => cases h
  | zero sign => exact .inl ⟨sign, rfl⟩
  | finite sign m e hm => exact .inr ⟨sign, m, e, hm, rfl⟩

instance (top : Int) : DecidablePred (ExponentAtMost top)
  | .finite _ _ e _ => inferInstanceAs (Decidable (e ≤ top))
  | .zero _ => inferInstanceAs (Decidable True)
  | .infinity _ | .notANumber => inferInstanceAs (Decidable False)

instance (low : Int) : DecidablePred (ExponentAtLeast low)
  | .finite _ _ e _ =>
    decidable_of_iff (low ≤ e) ⟨.finite, fun h => by cases h; assumption⟩
  | .zero _ | .infinity _ | .notANumber => isFalse (by intro h; cases h)

/-! ### Rounding -/

theorem mantissa_shiftRight (em : ExtendedMantissa) (k : Nat) :
    (em >>> k).mantissa = em.mantissa / 2 ^ k := by
  induction k with
  | zero => simp [HShiftRight.hShiftRight, Nat.repeat]
  | succ k ih =>
    show (em >>> k).mantissa / 2 = em.mantissa / 2 ^ (k + 1)
    rw [ih, Nat.div_div_eq_div_mul, Nat.pow_succ]

theorem mantissa_ofMantissaAndAccuracy (m : Nat) (accuracy : Accuracy) :
    (ExtendedMantissa.ofMantissaAndAccuracy m accuracy).mantissa = m := by
  cases accuracy with
  | exact => rfl
  | inexact order => cases order <;> rfl

theorem roundedMantissa_le (em : ExtendedMantissa) : em.roundedMantissa ≤ em.mantissa + 1 := by
  rcases em with ⟨m, _ | _, _ | _⟩ <;>
    simp only [ExtendedMantissa.roundedMantissa, ExtendedMantissa.accuracy,
      Accuracy.roundToNearestEven] <;> omega

/-- How far a mantissa is shifted to have at most 53 bits, at an exponent that there is. -/
def excess (m : Nat) (e : Int) : Nat :=
  (Format.binary64.targetExponent (totalExponent m e) - e).toNat

theorem excess_eq (m : Nat) (e : Int) :
    (excess m e : Int) = max 0 (max ((m.log2 : Int) - 52) (-1074 - e)) := by
  simp only [excess, Format.targetExponent, totalExponent, Format.mantissaBits, Format.minExponent]
  omega

theorem shiftToTargetExponent_mantissa (m : Nat) (e : Int) (accuracy : Accuracy) :
    (shiftToTargetExponent .binary64 m e accuracy).1.mantissa = m / 2 ^ excess m e := by
  show (ExtendedMantissa.ofMantissaAndAccuracy m accuracy >>> excess m e).mantissa = _
  rw [mantissa_shiftRight, mantissa_ofMantissaAndAccuracy]

theorem div_excess_lt (m : Nat) (e : Int) : m / 2 ^ excess m e < 2 ^ 53 := by
  have hexcess := excess_eq m e
  rw [Nat.div_lt_iff_lt_mul (Nat.two_pow_pos _), ← Nat.pow_add]
  exact Nat.lt_of_lt_of_le Nat.lt_log2_self (Nat.pow_le_pow_right (by decide) (by omega))

theorem excess_roundedMantissa_le (m : Nat) (e : Int) (accuracy : Accuracy) :
    excess (shiftToTargetExponent .binary64 m e accuracy).1.roundedMantissa
      (e + excess m e) ≤ 1 := by
  have hrounded := roundedMantissa_le (shiftToTargetExponent .binary64 m e accuracy).1
  rw [shiftToTargetExponent_mantissa] at hrounded
  have hlt := div_excess_lt m e
  generalize (shiftToTargetExponent .binary64 m e accuracy).1.roundedMantissa = r at *
  have hlog : r.log2 < 54 := by
    by_cases hr : r = 0
    · simp [hr]
    · exact (Nat.log2_lt hr).mpr (by omega)
  have hfirst := excess_eq m e
  have hsecond := excess_eq r (e + excess m e)
  omega

theorem exponentAtMost_round (sign : Sign) (m : Nat) (e : Int) (accuracy : Accuracy) :
    ExponentAtMost (e + excess m e + 1) (roundWithAccuracy .binary64 sign m e accuracy) := by
  have hsecond := excess_roundedMantissa_le m e accuracy
  simp only [roundWithAccuracy]
  split
  · trivial
  · show e + excess m e + (excess _ (e + excess m e) : Nat) ≤ e + excess m e + 1
    exact Int.add_le_add_left (Int.ofNat_le.mpr hsecond) _

theorem log2_le_of_lt (h : m < 2 ^ (k + 1)) : m.log2 ≤ k := by
  by_cases hm : m = 0
  · simp [hm]
  · exact Nat.le_of_lt_succ ((Nat.log2_lt hm).mpr h)

theorem exponentAtMost_round_of_log2 (sign : Sign) (accuracy : Accuracy) (hexponent : e < top)
    (hbits : m.log2 + e < top + 52) (hmin : -1074 < top) :
    ExponentAtMost top (roundWithAccuracy .binary64 sign m e accuracy) := by
  have hround := exponentAtMost_round sign m e accuracy
  have hexcess := excess_eq m e
  obtain ⟨sign, hcase⟩ | ⟨_, _, e', _, hcase⟩ := isFinite_cases hround.isFinite
  · rw [hcase]
    trivial
  · rw [hcase] at hround ⊢
    have hround : e' ≤ e + excess m e + 1 := hround
    show e' ≤ top
    omega

/-! ### Packing -/

theorem mantissa_lt_of_unpack {x : Float.Model} {sign : Sign} {h : 0 < m}
    (hx : x.unpack = .finite sign m e h) : m < 2 ^ 53 := by
  simp only [Float.Model.unpack, UnpackedFloat.unpack] at hx
  split at hx
  · split at hx <;> cases hx
  · split at hx
    · split at hx
      · cases hx
      · cases hx
        have hlt := (@unpackMantissa .binary64 x.toBits.toBitVec).isLt
        exact Nat.lt_trans hlt (by decide)
    · cases hx
      exact BitVec.isLt _

theorem exponentAtMost_of_isFinite {x : Float.Model} (hx : x.isFinite = true) :
    ExponentAtMost 971 x.unpack := by
  have hx : x.unpack.isFinite = true := hx
  simp only [Float.Model.unpack, UnpackedFloat.unpack] at hx ⊢
  generalize hexponent : @unpackExponent .binary64 x.toBits.toBitVec = exponent at *
  split at hx
  · split at hx <;> cases hx
  · rename_i hne
    have hlt : exponent.toNat < 2047 := by
      have hbound : exponent.toNat < 2048 := exponent.isLt
      have hones : exponent.toNat ≠ 2047 := mt (BitVec.eq_of_toNat_eq (y := -1#11)) hne
      omega
    rw [if_neg hne]
    split
    · split
      · trivial
      · rename_i hzero _
        subst hzero
        show (-1074 : Int) ≤ 971
        decide
    · show (exponent.toNat : Int) - 1075 ≤ 971
      omega

theorem exponentAtMost_unpack (sign : Sign) (mantissa : BitVec 52) (hexponent : exponent ≠ -1#11)
    (htop : (exponent.toNat : Int) - 1075 ≤ top) (hmin : -1074 ≤ top) :
    ExponentAtMost top (UnpackedFloat.unpack .binary64
      (packComponents .binary64 sign exponent mantissa)) := by
  simp only [UnpackedFloat.unpack, unpackExponent_packComponents, unpackMantissa_packComponents]
  rw [if_neg hexponent]
  split
  · split
    · trivial
    · rename_i hzero _
      subst hzero
      exact hmin
  · exact htop

/-- The exponent as it is packed. -/
def biased (e : Int) : BitVec 11 := BitVec.ofNat 11 (e + 1075).toNat

theorem biased_toNat (he : e ≤ 971) : (biased e).toNat = (e + 1075).toNat := by
  rw [biased, BitVec.toNat_ofNat, Nat.mod_eq_of_lt (by omega)]

theorem biased_ne (he : e ≤ 971) : biased e ≠ -1#11 := by
  intro heq
  have hnat := biased_toNat he
  rw [heq] at hnat
  have hones : (-1#11).toNat = 2047 := by decide
  omega

theorem pack_finite (sign : Sign) (hm : 0 < m) (he : e ≤ 971) :
    UnpackedFloat.pack .binary64 (.finite sign m e hm) =
      packComponents .binary64 sign (if m.log2 = 52 then biased e else 0#11)
        (BitVec.ofNat 52 m) := by
  have hbias : e + (Format.exponentBias .binary64 : Int) + (52 : Nat) = e + 1075 := by
    rw [show Format.exponentBias .binary64 = 1023 from rfl]
    omega
  have hbits : m.log2 + 1 = Format.mantissaBits .binary64 ↔ m.log2 = 52 := by
    rw [show Format.mantissaBits .binary64 = 53 from rfl]
    omega
  simp only [UnpackedFloat.pack, hbits]
  rw [hbias, if_neg (by omega)]
  split
  · rfl
  · rfl

theorem exponentAtMost_pack (h : ExponentAtMost top u) (hmin : -1074 ≤ top) (hmax : top ≤ 971) :
    ExponentAtMost top (Float.Model.pack u).unpack := by
  obtain ⟨sign, rfl⟩ | ⟨sign, m, e, hm, rfl⟩ := isFinite_cases h.isFinite
  · exact exponentAtMost_unpack sign 0 (by decide) (by simp; omega) hmin
  · have he : e ≤ top := h
    have hbiased := biased_toNat (e := e) (by omega)
    show ExponentAtMost top (UnpackedFloat.unpack .binary64
      (UnpackedFloat.pack .binary64 (.finite sign m e hm)))
    rw [pack_finite sign hm (by omega)]
    split
    · exact exponentAtMost_unpack sign _ (biased_ne (by omega)) (by omega) hmin
    · exact exponentAtMost_unpack sign _ (by decide) (by simp; omega) hmin

theorem isFinite_pack (hu : u.isFinite = true) (hinf : (Float.Model.pack u).unpack.isInf = false) :
    (Float.Model.pack u).unpack.isFinite = true := by
  obtain ⟨sign, rfl⟩ | ⟨sign, m, e, hm, rfl⟩ := isFinite_cases hu
  · cases sign <;> decide +kernel
  · by_cases he : e ≤ 971
    · have hmost : ExponentAtMost (max e (-1074)) (.finite sign m e hm) := Int.le_max_left _ _
      exact (exponentAtMost_pack hmost (by omega) (by omega)).isFinite
    · have hpack : UnpackedFloat.pack .binary64 (.finite sign m e hm) =
          packedInfinity .binary64 sign := by
        have hbias : Format.exponentBias .binary64 = 1023 := rfl
        simp only [UnpackedFloat.pack, hbias]
        exact if_pos (by omega)
      have hunpack : (Float.Model.pack (.finite sign m e hm)).unpack =
          UnpackedFloat.unpack .binary64 (packedInfinity .binary64 sign) := by
        rw [← hpack]
        rfl
      rw [hunpack] at hinf
      cases sign <;> exact absurd hinf (by decide +kernel)

/-! ### Arithmetic -/

theorem shiftLeft_lt (h : m < 2 ^ (k + 1)) (n : Nat) : m <<< n < 2 ^ (k + n + 1) := by
  rw [Nat.shiftLeft_eq, Nat.add_right_comm, Nat.pow_add]
  exact Nat.mul_lt_mul_of_pos_right h (Nat.two_pow_pos n)

theorem exponentAtMost_div (hx : ExponentAtMost top x.toModel.unpack)
    (hp : ExponentAtLeast (-53) p.toModel.unpack) (hmin : 0 ≤ top) (hmax : top + 54 ≤ 971) :
    ExponentAtMost (top + 54) (x / p).toModel.unpack := by
  show ExponentAtMost (top + 54)
    (Float.Model.pack (UnpackedFloat.div .binary64 x.toModel.unpack p.toModel.unpack)).unpack
  obtain ⟨sign2, hq⟩ | ⟨_, m2, e2, _, hq⟩ := isFinite_cases hp.isFinite
  · rw [hq] at hp
    cases hp
  · obtain ⟨sign1, hy⟩ | ⟨_, _, e1, _, hy⟩ := isFinite_cases hx.isFinite
    · rw [hy, hq]
      exact exponentAtMost_pack (u := .zero _) trivial (by omega) hmax
    · have hlt := mantissa_lt_of_unpack hy
      rw [hy] at hx ⊢
      rw [hq] at hp ⊢
      have hx : e1 ≤ top := hx
      have hp : -53 ≤ e2 := by cases hp; assumption
      simp only [UnpackedFloat.div, divCore]
      generalize htarget : min (e1 - e2) _ = target
      -- The dividend is shifted to have enough bits, and its exponent is lowered as much.
      have hquotient := Nat.lt_of_le_of_lt (Nat.div_le_self _ m2)
        (shiftLeft_lt hlt (e1 - e2 - target).toNat)
      have hlog := log2_le_of_lt hquotient
      exact exponentAtMost_pack
        (exponentAtMost_round_of_log2 _ _ (by omega) (by omega) (by omega)) (by omega) hmax

theorem exponentAtMost_mul (hx : ExponentAtMost top x.toModel.unpack)
    (hp : ExponentAtMost (-52) p.toModel.unpack) (hmin : 0 ≤ top) (hmax : top + 2 ≤ 971) :
    ExponentAtMost (top + 2) (x * p).toModel.unpack := by
  refine exponentAtMost_pack ?_ (by omega) hmax
  obtain ⟨sign1, hy⟩ | ⟨_, _, e1, _, hy⟩ := isFinite_cases hx.isFinite
  · obtain ⟨sign2, hq⟩ | ⟨sign2, m2, e2, hm2, hq⟩ := isFinite_cases hp.isFinite <;>
      rw [hy, hq] <;> trivial
  · obtain ⟨sign2, hq⟩ | ⟨_, _, e2, _, hq⟩ := isFinite_cases hp.isFinite
    · rw [hy, hq]
      trivial
    · have hlt := Nat.mul_lt_mul'' (mantissa_lt_of_unpack hy) (mantissa_lt_of_unpack hq)
      have hlog := log2_le_of_lt (k := 105) hlt
      rw [hy] at hx ⊢
      rw [hq] at hp ⊢
      have hx : e1 ≤ top := hx
      have hp : e2 ≤ -52 := hp
      exact exponentAtMost_round_of_log2 _ _ (by omega) (by omega) (by omega)

theorem isFinite_mul (hx : x.isFinite = true) (hp : p.isFinite = true)
    (hinf : (x * p).isInf = false) : (x * p).isFinite = true := by
  refine isFinite_pack ?_ hinf
  obtain ⟨sign1, hy⟩ | ⟨_, _, _, _, hy⟩ := isFinite_cases (u := x.toModel.unpack) hx
  · obtain ⟨sign2, hq⟩ | ⟨sign2, m2, e2, hm2, hq⟩ := isFinite_cases (u := p.toModel.unpack) hp <;>
      rw [hy, hq] <;> rfl
  · obtain ⟨sign2, hq⟩ | ⟨_, _, _, _, hq⟩ := isFinite_cases (u := p.toModel.unpack) hp
    · rw [hy, hq]
      rfl
    · rw [hy, hq]
      exact (exponentAtMost_round _ _ _ _).isFinite

theorem isFinite_neg (hx : x.isFinite = true) : (-x).isFinite = true := by
  have hmost := exponentAtMost_of_isFinite (x := x.toModel) hx
  have hneg : ExponentAtMost 971 x.toModel.unpack.neg := by
    obtain ⟨sign, hy⟩ | ⟨_, m, e, _, hy⟩ := isFinite_cases (u := x.toModel.unpack) hx
    · rw [hy]
      trivial
    · rw [hy] at hmost ⊢
      exact hmost
  exact (exponentAtMost_pack hneg (by decide) (by decide)).isFinite

/-! ### Reading -/

theorem exponentAtMost_toFloat (h : n < 2 ^ 53) :
    ExponentAtMost 10 n.toUInt64.toFloat.toModel.unpack := by
  have hword : n.toUInt64.toNat = n := by
    simp only [Nat.toUInt64, UInt64.toNat_ofNat']
    omega
  show ExponentAtMost 10 (Float.Model.pack (UnpackedFloat.ofNat .binary64 n.toUInt64.toNat)).unpack
  rw [hword]
  refine exponentAtMost_pack ?_ (by decide) (by decide)
  simp only [UnpackedFloat.ofNat, UnpackedFloat.ofInt, UnpackedFloat.normalize]
  split
  · rename_i hlt
    rw [Int.compare_eq_lt] at hlt
    omega
  · trivial
  · simp only [UnpackedFloat.round, decreaseExponent, Int.toNat_natCast]
    generalize (0 - Format.targetExponent .binary64 (totalExponent n 0)).toNat = k
    have hlog := log2_le_of_lt (shiftLeft_lt h k)
    exact exponentAtMost_round_of_log2 _ _ (by omega) (by omega) (by decide)

theorem unpack_ofScientific (hm : m ≠ 0) :
    (Float.Model.ofScientific m (0 : Nat)).unpack =
      (Float.Model.pack
        (roundWithAccuracy .binary64 .positive (m <<< 53 * 10 ^ 0) (-53) .exact)).unpack := by
  have hround : UnpackedFloat.ofScientific .binary64 m (0 : Nat) =
      roundWithAccuracy .binary64 .positive (m <<< 53 * 10 ^ 0) (-53) .exact := by
    simp only [UnpackedFloat.ofScientific]
    rw [dif_neg hm, if_neg (by omega), if_neg (by omega), if_pos (by omega)]
    rfl
  rw [← hround]
  rfl

theorem exponentAtMost_one :
    ExponentAtMost (-52) Float.exactlyRepresentablePowersOfTen[0].toModel.unpack := by
  decide +kernel

theorem exponentAtMost_ofNat (h : n < 2 ^ 64) :
    ExponentAtMost 12 (Float.ofNat n).toModel.unpack := by
  by_cases hsmall : n < 2 ^ 53
  · -- A small one is converted as it is, and then multiplied by one.
    have hmul : Float.ofNat n = n.toUInt64.toFloat * Float.exactlyRepresentablePowersOfTen[0] :=
      dif_pos ⟨hsmall, Nat.zero_le 22⟩
    rw [hmul]
    exact exponentAtMost_mul (exponentAtMost_toFloat hsmall) exponentAtMost_one (by decide)
      (by decide)
  · have hlarge : Float.ofNat n = .ofModel (Float.Model.ofScientific n (0 : Nat)) :=
      dif_neg fun hboth => hsmall hboth.1
    have hlog := log2_le_of_lt (shiftLeft_lt h 53)
    rw [hlarge, unpack_ofScientific (by omega), Nat.pow_zero, Nat.mul_one]
    generalize n <<< 53 = m at hlog ⊢
    exact exponentAtMost_pack
      (exponentAtMost_round_of_log2 _ _ (by decide) (by omega) (by decide)) (by decide) (by decide)

/-- The powers of ten that a float is scaled by are all at least one. -/
theorem exponentAtLeast_powerOfTen (h : n ≤ 308) :
    ExponentAtLeast (-53) (powerOfTen n).toModel.unpack := by
  have hall : ∀ n < 309, ExponentAtLeast (-53) (powerOfTen n).toModel.unpack := by decide +kernel
  exact hall n (Nat.lt_succ_of_le h)

theorem isFinite_scale {steps : Nat} {y : Float} (hx : ExponentAtMost top x.toModel.unpack)
    (hmin : 0 ≤ top) (hmax : top + 54 * steps ≤ 971) (h : scale steps x e = some y) :
    y.isFinite = true := by
  induction steps generalizing x e top with
  | zero =>
    cases h
    decide +kernel
  | succ _ ih =>
    unfold scale at h
    split at h
    · split at h
      · have hp := exponentAtLeast_powerOfTen (n := e.toNat) (by omega)
        simp only at h
        split at h
        · cases h
        · rename_i hinf
          cases h
          exact isFinite_mul hx.isFinite hp.isFinite (by simpa using hinf)
      · cases h
        have hp := exponentAtLeast_powerOfTen (n := (-e).toNat) (by omega)
        exact (exponentAtMost_div hx hp hmin (by omega)).isFinite
    · split at h
      · cases h
        exact hx.isFinite
      · split at h
        · cases h
        · have hp := exponentAtLeast_powerOfTen (n := 308) (by decide)
          have hdiv := exponentAtMost_div hx hp hmin (by omega)
          exact ih (x := x / powerOfTen 308) hdiv (by omega) (by omega) h

theorem extend_lt {s : Nat} (hs : s < 2 ^ 64) (ds : List Char) : (extend s ds).1 < 2 ^ 64 := by
  induction ds generalizing s with
  | nil => exact hs
  | cons d _ ih =>
    unfold extend
    split
    · exact hs
    · rename_i hle
      simp only [significandLimit, Nat.pow_eq] at hle
      exact ih (by omega)

/-- A numeral that stands for a float stands for a finite one. -/
theorem isFinite_of_toFloat? {n : Numeral} (h : n.toFloat? = some x) : x.isFinite = true := by
  have hsignificand := extend_lt (extend_lt (s := 0) (by decide) n.whole) n.fraction
  simp only [toFloat?, Option.map_eq_some_iff] at h
  obtain ⟨y, hscale, rfl⟩ := h
  have hy := isFinite_scale (exponentAtMost_ofNat hsignificand) (by decide) (by decide) hscale
  split
  · exact isFinite_neg hy
  · exact hy

/-! ### Writing -/

theorem toNat_unpackExponent (b : BitVec 64) :
    (@unpackExponent .binary64 b).toNat = b.toNat / Nat.pow 2 52 % Nat.pow 2 11 := by
  simp [unpackExponent, Nat.shiftRight_eq_div_pow]

theorem floatClass_of_isFinite (h : x.isFinite = true) :
    ∃ negative m q, FloatClass.of x = .finite negative m q := by
  have hbiased : x.toBits.toNat / Nat.pow 2 52 % Nat.pow 2 11 ≠ 2047 := by
    have h : x.toModel.unpack.isFinite = true := h
    intro heq
    have hones : @unpackExponent .binary64 x.toModel.toBits.toBitVec = -1#11 :=
      BitVec.eq_of_toNat_eq ((toNat_unpackExponent _).trans heq)
    simp only [Float.Model.unpack, UnpackedFloat.unpack, hones, if_true] at h
    split at h <;> cases h
  simp only [FloatClass.of]
  rw [if_neg hbiased]
  split
  · exact ⟨_, _, _, rfl⟩
  · exact ⟨_, _, _, rfl⟩

end Laye.Numeral
