/-!
# The shortest decimal of a float

A finite float other than zero is `m * 2 ^ q`. The reals that round to it form an interval around
it, which includes its ends when `m` is even. `Decimal.shortest` finds the decimal `d * 10 ^ k` in
that interval with the largest `k`, and of two such decimals the nearer one. All comparisons are
exact, on natural numbers.
-/

namespace Laye

/-- What a float is. A finite one is `± significand * 2 ^ exponent`. -/
inductive FloatClass where
  | nan
  | infinite (negative : Bool)
  | finite (negative : Bool) (significand : Nat) (exponent : Int)
deriving DecidableEq, Repr

/-- Takes a float's bits apart. -/
def FloatClass.of (x : Float) : FloatClass :=
  let bits : Nat := x.toBits.toNat
  let negative := decide (bits / Nat.pow 2 63 = 1)
  let biased : Nat := bits / Nat.pow 2 52 % Nat.pow 2 11
  let fraction : Nat := bits % Nat.pow 2 52
  if biased = 2047 then
    if fraction = 0 then .infinite negative else .nan
  else if biased = 0 then .finite negative fraction (-1074)
  else .finite negative (Nat.pow 2 52 + fraction) (biased - 1075)

/-- The decimal number `digits * 10 ^ exponent`. -/
structure Decimal where
  digits : Nat
  exponent : Int
deriving DecidableEq, Repr

namespace Decimal

/-- Which of two equally near decimals is taken. -/
inductive Tie where
  | up
  | even
deriving DecidableEq, Repr

/-- The size of the unit `10 ^ k`, in quarters of `2 ^ q` times a common factor. -/
def unit (q k : Int) : Nat := 4 * Nat.pow 10 k.toNat * Nat.pow 2 (-q).toNat

/-- The size of `quarters * 2 ^ q / 4`, in the same measure as `unit q k`. -/
def measure (quarters : Nat) (q k : Int) : Nat :=
  quarters * Nat.pow 10 (-k).toNat * Nat.pow 2 q.toNat

/-- How far the interval reaches below `m * 2 ^ q`, in quarters of `2 ^ q`. The gap is narrower
below a power of two, since the floats are denser there. -/
def gapBelow (m : Nat) (q : Int) : Nat := if m = Nat.pow 2 52 ∧ -1074 < q then 1 else 2

/-- Whether `d * 10 ^ k` lies in the interval of the reals that round to `m * 2 ^ q`. -/
def roundsTo (m : Nat) (q : Int) (d : Nat) (k : Int) : Bool :=
  let low := measure (4 * m - gapBelow m q) q k
  let high := measure (4 * m + 2) q k
  let point := d * unit q k
  if m % 2 = 0 then low ≤ point ∧ point ≤ high else low < point ∧ point < high

/-- The multiple of `10 ^ k` that rounds to `m * 2 ^ q`, if there is one: the nearer of the two
neighbours of the float when both do. -/
def candidate? (tie : Tie) (m : Nat) (q k : Int) : Option Nat :=
  let value := measure (4 * m) q k
  let step := unit q k
  let d := value / step
  match roundsTo m q d k, roundsTo m q (d + 1) k with
  | false, false => none
  | true, false => some d
  | false, true => some (d + 1)
  | true, true =>
    if 2 * (value % step) < step then some d
    else if step < 2 * (value % step) then some (d + 1)
    else match tie with
      | .up => some (d + 1)
      | .even => some (if d % 2 = 0 then d else d + 1)

/-- Tries ever finer grids `10 ^ (n - 345)`. The finest one is finer than every float's interval,
so the last case is never reached. -/
def search (tie : Tie) (m : Nat) (q : Int) : Nat → Decimal
  | 0 => ⟨0, 0⟩
  | n + 1 =>
    match candidate? tie m q ((n : Int) - 345) with
    | some d => ⟨d, (n : Int) - 345⟩
    | none => search tie m q n

/-- How many decimal digits a number has. -/
def digitCount (n : Nat) : Nat := (Nat.toDigits 10 n).length

/-- An exponent `k` such that `m * 2 ^ q` is less than `10 ^ k`. No multiple of a coarser unit than
that rounds to the float. -/
def coarsest (m : Nat) (q : Int) : Int :=
  digitCount (m * Nat.pow 2 q.toNat) - digitCount (Nat.pow 2 (-q).toNat) + 1

/-- The shortest decimal that rounds to the float `m * 2 ^ q`. -/
def shortest (tie : Tie) (m : Nat) (q : Int) : Decimal :=
  search tie m q (coarsest m q + 346).toNat

end Decimal

end Laye
