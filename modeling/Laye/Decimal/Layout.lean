import Laye.Decimal.Numeral
import Laye.Decimal.Shortest

/-!
# How floats are written

A float is written with the digits of its shortest decimal, either with a decimal point and at
least one digit on both sides of it, or in exponent form. A `Layout` says for which magnitudes the
first form is used and which of two equally near decimals is taken.
-/

namespace Laye

namespace Decimal

/-- The choices that fix how a float is written. `first` and `last` bound the place of the decimal
point, counted from the first digit, for which the number is written without an exponent. -/
structure Layout where
  first : Int
  last : Int
  tie : Tie
deriving DecidableEq, Repr

/-- The digits of the decimal with a point after `place` of them. -/
def withPoint (negative : Bool) (ds : List Char) (place : Int) : Numeral :=
  if place ≤ 0 then ⟨negative, ['0'], List.replicate (-place).toNat '0' ++ ds, none⟩
  else if place < ds.length then ⟨negative, ds.take place.toNat, ds.drop place.toNat, none⟩
  else ⟨negative, ds ++ List.replicate (place.toNat - ds.length) '0', ['0'], none⟩

/-- The digits of the decimal in exponent form. -/
def withExponent (negative : Bool) (ds : List Char) (place : Int) : Numeral :=
  ⟨negative, ds.take 1, ds.drop 1,
    some (decide (place - 1 < 0), Nat.toDigits 10 (place - 1).natAbs)⟩

/-- Writes a decimal as the layout says. -/
def toNumeral (layout : Layout) (negative : Bool) (d : Decimal) : Numeral :=
  let ds := Nat.toDigits 10 d.digits
  let place := ds.length + d.exponent
  if layout.first ≤ place ∧ place ≤ layout.last then withPoint negative ds place
  else withExponent negative ds place

end Decimal

/-- The numeral of a finite float. -/
def Numeral.ofFinite (layout : Decimal.Layout) (negative : Bool) (m : Nat) (q : Int) : Numeral :=
  if m = 0 then ⟨negative, ['0'], ['0'], none⟩
  else (Decimal.shortest layout.tie m q).toNumeral layout negative

end Laye
