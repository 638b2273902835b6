import Laye.Decimal.Layout

/-!
# Written numbers are read back

`Numeral.WellFormed` is the grammar of written numbers: digits on both sides of a point and in an
exponent, and no needless zero in front. `Numeral.scan_chars` says that a well-formed numeral is
scanned as it was written, whatever follows it, as long as that does not prolong the number.

The numerals that are written are well formed: those of natural numbers (`wellFormed_ofNat`) and
those of finite floats in every layout (`wellFormed_ofFinite`). The digits of a float never start
with a zero, for no decimal with the digit zero rounds to a float other than zero.
-/

namespace Laye

namespace Numeral

/-- Digits without a needless zero in front. -/
structure IsWhole (ds : List Char) : Prop where
  ne_nil : ds ≠ []
  isDigit : ∀ c ∈ ds, c.isDigit = true
  leading : ds.head? = some '0' → ds = ['0']

/-- The numeral is written as the grammar of numbers asks. -/
structure WellFormed (n : Numeral) : Prop where
  whole : IsWhole n.whole
  fraction : ∀ c ∈ n.fraction, c.isDigit = true
  exponent : ∀ e ∈ n.exponent, e.2 ≠ [] ∧ ∀ c ∈ e.2, c.isDigit = true

/-- The text does not go on with a digit, a point or an exponent mark. -/
def Ends (rest : List Char) : Prop :=
  ∀ c ∈ rest.head?, c.isDigit = false ∧ c ≠ '.' ∧ c ≠ 'e' ∧ c ≠ 'E'

/-! ### Scanning -/

variable {ds rest : List Char}

theorem scanDigits_append (hds : ∀ c ∈ ds, c.isDigit = true)
    (hrest : ∀ c ∈ rest.head?, c.isDigit = false) : scanDigits (ds ++ rest) = (ds, rest) := by
  induction ds with
  | nil =>
    cases rest with
    | nil => rfl
    | cons c _ => simp [scanDigits, hrest c rfl]
  | cons d _ ih =>
    have htail := ih fun c hc => hds c (List.mem_cons_of_mem _ hc)
    simp only [scanDigits, Prod.mk.injEq] at htail
    simp [scanDigits, hds d List.mem_cons_self, htail]

theorem scanWhole_append (hds : IsWhole ds) (hrest : ∀ c ∈ rest.head?, c.isDigit = false) :
    scanWhole (ds ++ rest) = some (ds, rest) := by
  unfold scanWhole
  rw [scanDigits_append hds.isDigit hrest]
  cases ds with
  | nil => exact absurd rfl hds.ne_nil
  | cons d _ =>
    by_cases hd : d = '0'
    · rw [hds.leading (by rw [hd]; rfl)]
      rfl
    · split <;> simp_all

theorem scanFraction_append (hds : ∀ c ∈ ds, c.isDigit = true)
    (hrest : ∀ c ∈ rest.head?, c.isDigit = false ∧ c ≠ '.') :
    scanFraction (fractionChars ds ++ rest) = some (ds, rest) := by
  cases ds with
  | nil =>
    cases rest with
    | nil => rfl
    | cons c _ =>
      simp only [fractionChars, List.nil_append]
      unfold scanFraction
      split <;> simp_all
  | cons d ds =>
    show scanFraction ('.' :: ((d :: ds) ++ rest)) = some (d :: ds, rest)
    unfold scanFraction
    simp only [scanDigits_append hds fun c hc => (hrest c hc).1]

theorem scanExponentDigits_append (negative : Bool) (hne : ds ≠ [])
    (hds : ∀ c ∈ ds, c.isDigit = true) (hrest : ∀ c ∈ rest.head?, c.isDigit = false) :
    scanExponentDigits negative (ds ++ rest) = some (some (negative, ds), rest) := by
  unfold scanExponentDigits
  rw [scanDigits_append hds hrest]
  cases ds with
  | nil => exact absurd rfl hne
  | cons d _ => rfl

theorem scanExponent_append {e : Option (Bool × List Char)}
    (he : ∀ x ∈ e, x.2 ≠ [] ∧ ∀ c ∈ x.2, c.isDigit = true) (hrest : Ends rest) :
    scanExponent (exponentChars e ++ rest) = some (e, rest) := by
  have hdigit : ∀ c ∈ rest.head?, c.isDigit = false := fun c hc => (hrest c hc).1
  cases e with
  | none =>
    cases rest with
    | nil => rfl
    | cons c _ =>
      obtain ⟨-, -, hlower, hupper⟩ := hrest c rfl
      simp [exponentChars, scanExponent, hlower, hupper]
  | some x =>
    obtain ⟨negative, ds⟩ := x
    obtain ⟨hne, hds⟩ := he _ rfl
    cases negative with
    | true => exact scanExponentDigits_append true hne hds hdigit
    | false =>
      -- The first digit is no sign, so the exponent is read as a positive one.
      cases ds with
      | nil => exact absurd rfl hne
      | cons d _ =>
        have hscan := scanExponentDigits_append false hne hds hdigit
        simp only [exponentChars, List.cons_append, scanExponent, true_or, if_true]
        split <;> simp_all

/-- A well-formed numeral is scanned as it was written. -/
theorem scan_chars {n : Numeral} (hn : n.WellFormed) (hrest : Ends rest) :
    scan (n.chars ++ rest) = some (n, rest) := by
  obtain ⟨negative, whole, fraction, exponent⟩ := n
  have hexponent : ∀ c ∈ (exponentChars exponent ++ rest).head?, c.isDigit = false ∧ c ≠ '.' := by
    intro c hc
    rcases exponent with _ | ⟨_ | _, _⟩
    · exact ⟨(hrest c hc).1, (hrest c hc).2.1⟩
    · cases hc
      decide
    · cases hc
      decide
  have hfraction : ∀ c ∈ (fractionChars fraction ++ (exponentChars exponent ++ rest)).head?,
      c.isDigit = false := by
    intro c hc
    cases fraction with
    | nil => exact (hexponent c hc).1
    | cons d _ =>
      cases hc
      decide
  have hwhole := scanWhole_append hn.whole hfraction
  have hrest' := scanExponent_append hn.exponent hrest
  have hfrac := scanFraction_append hn.fraction hexponent
  cases negative with
  | true =>
    simp only [chars, if_true, List.append_assoc, List.cons_append, List.nil_append, scan, hwhole,
      hfrac, hrest', Option.bind_some, Option.map_some]
  | false =>
    -- Without a sign the first character is a digit.
    cases whole with
    | nil => exact absurd rfl hn.whole.ne_nil
    | cons d _ =>
      have hd : d.isDigit = true := hn.whole.isDigit d List.mem_cons_self
      rw [List.cons_append] at hwhole
      simp only [chars, Bool.false_eq_true, if_false, List.append_assoc, List.nil_append,
        List.cons_append, scan]
      split
      · simp_all
      · simp only [hwhole, hfrac, hrest', Option.bind_some, Option.map_some]

/-! ### Natural numbers -/

theorem head?_append_left (hds : ds ≠ []) : (ds ++ rest).head? = ds.head? := by
  rw [List.head?_append, List.head?_eq_some_head hds, Option.some_or]

theorem digitsValue_toDigits (n : Nat) : digitsValue (Nat.toDigits 10 n) = n :=
  Nat.ofDigitChars_ten_toDigits

theorem isWhole_toDigits (n : Nat) : IsWhole (Nat.toDigits 10 n) := by
  refine ⟨Nat.toDigits_ne_nil,
    fun c hc => Nat.isDigit_of_mem_toDigits (by decide) (by decide) hc, ?_⟩
  induction n using Nat.strongRecOn with
  | ind n ih =>
    intro hhead
    rw [Nat.toDigits_eq_if (by decide)] at hhead ⊢
    by_cases hn : n < 10
    · rw [if_pos hn] at hhead ⊢
      simp_all
    · -- A number of several digits starts like its tenth, which is not zero.
      rw [if_neg hn, head?_append_left Nat.toDigits_ne_nil] at hhead
      have htenth := ih (n / 10) (by omega) hhead
      have hvalue := digitsValue_toDigits (n / 10)
      rw [htenth] at hvalue
      have hzero : digitsValue ['0'] = 0 := by decide
      omega

theorem wellFormed_ofNat (n : Nat) : (ofNat n).WellFormed :=
  ⟨isWhole_toDigits n, by simp [ofNat], by simp [ofNat]⟩

/-- A natural number is read back from its numeral. -/
theorem natural?_ofNat (n : Nat) : (ofNat n).natural? = some n := by
  simp [natural?, ofNat, digitsValue_toDigits]

end Numeral

/-! ### Floats -/

namespace Decimal

open Numeral (IsWhole WellFormed isWhole_toDigits)

theorem isDigit_replicate {n : Nat} {c : Char} (hc : c ∈ List.replicate n '0') :
    c.isDigit = true := by
  rw [List.eq_of_mem_replicate hc]
  decide

theorem isWhole_zero : IsWhole ['0'] :=
  ⟨by decide, List.forall_mem_singleton.mpr rfl, fun _ => rfl⟩

theorem wellFormed_withPoint (negative : Bool) {ds : List Char} (hds : IsWhole ds) {place : Int}
    (hplace : ds = ['0'] → place ≤ 1) : (withPoint negative ds place).WellFormed := by
  unfold withPoint
  split
  · refine ⟨isWhole_zero, fun c hc => ?_, by simp⟩
    rcases List.mem_append.mp hc with hc | hc
    · exact isDigit_replicate hc
    · exact hds.isDigit c hc
  · split
    · rename_i hlt
      refine ⟨⟨?_, fun c hc => hds.isDigit c (List.mem_of_mem_take hc), fun hhead => ?_⟩,
        fun c hc => hds.isDigit c (List.mem_of_mem_drop hc), by simp⟩
      · intro hnil
        rw [List.take_eq_nil_iff] at hnil
        have := hds.ne_nil
        rcases hnil with _ | hnil
        · omega
        · exact this hnil
      · -- A leading zero would be the only digit, and then there is none behind the point.
        rw [List.head?_take, if_neg (by omega)] at hhead
        have hone := hds.leading hhead
        rw [hone, List.length_singleton] at hlt
        omega
    · refine ⟨⟨by simp [hds.ne_nil], fun c hc => ?_, fun hhead => ?_⟩,
        fun c hc => isWhole_zero.isDigit c hc, by simp⟩
      · rcases List.mem_append.mp hc with hc | hc
        · exact hds.isDigit c hc
        · exact isDigit_replicate hc
      · rw [Numeral.head?_append_left hds.ne_nil] at hhead
        have hone := hds.leading hhead
        have hplace := hplace hone
        rw [hone, List.length_singleton, show place.toNat - 1 = 0 by omega]
        rfl

theorem wellFormed_withExponent (negative : Bool) {ds : List Char} (hds : IsWhole ds)
    (place : Int) :
    (withExponent negative ds place).WellFormed := by
  have hexponent := isWhole_toDigits (place - 1).natAbs
  refine ⟨⟨by simp [withExponent, hds.ne_nil],
    fun c hc => hds.isDigit c (List.mem_of_mem_take hc), ?_⟩,
    fun c hc => hds.isDigit c (List.mem_of_mem_drop hc), ?_⟩
  · intro hhead
    simp only [withExponent, List.head?_take, Nat.one_ne_zero, if_false] at hhead ⊢
    rw [hds.leading hhead]
    rfl
  · rintro _ ⟨⟩
    exact ⟨hexponent.ne_nil, hexponent.isDigit⟩

theorem wellFormed_toNumeral (layout : Layout) (negative : Bool) {d : Decimal}
    (hd : d.digits = 0 → d.exponent ≤ 0) : (d.toNumeral layout negative).WellFormed := by
  have hds := isWhole_toDigits d.digits
  simp only [toNumeral]
  split
  · refine wellFormed_withPoint negative hds fun hzero => ?_
    have hvalue := Numeral.digitsValue_toDigits d.digits
    rw [hzero] at hvalue
    have hexponent := hd (by rw [← hvalue]; decide)
    rw [hzero, List.length_singleton]
    omega
  · exact wellFormed_withExponent negative hds _

theorem roundsTo_zero {m : Nat} (hm : m ≠ 0) (q k : Int) : roundsTo m q 0 k = false := by
  have hgap : gapBelow m q ≤ 2 := by
    unfold gapBelow
    split <;> omega
  have hlow : 0 < measure (4 * m - gapBelow m q) q k :=
    Nat.mul_pos (Nat.mul_pos (by omega) (Nat.pow_pos (by decide))) (Nat.pow_pos (by decide))
  unfold roundsTo
  split
  · simp [Nat.not_le.mpr hlow]
  · simp

theorem roundsTo_of_candidate? {tie : Tie} {m d : Nat} {q k : Int}
    (h : candidate? tie m q k = some d) : roundsTo m q d k = true := by
  unfold candidate? at h
  simp only at h
  repeat' split at h
  all_goals cases h
  all_goals assumption

theorem digits_search {tie : Tie} {m : Nat} (hm : m ≠ 0) (q : Int) (n : Nat) :
    (search tie m q n).digits = 0 → (search tie m q n).exponent ≤ 0 := by
  induction n with
  | zero => exact fun _ => Int.le_refl 0
  | succ n ih =>
    unfold search
    split
    · rename_i d hd
      intro hzero
      have hrounds := roundsTo_of_candidate? hd
      rw [show d = 0 from hzero, roundsTo_zero hm] at hrounds
      cases hrounds
    · exact ih

end Decimal

/-- The numeral that a finite float is printed as is well formed. -/
theorem Numeral.wellFormed_ofFinite (layout : Decimal.Layout) (negative : Bool)
    (m : Nat) (q : Int) :
    (Numeral.ofFinite layout negative m q).WellFormed := by
  unfold ofFinite
  split
  · exact ⟨Decimal.isWhole_zero, fun c hc => Decimal.isWhole_zero.isDigit c hc, by simp⟩
  · rename_i hm
    exact Decimal.wellFormed_toNumeral layout negative (Decimal.digits_search hm q _)

end Laye
