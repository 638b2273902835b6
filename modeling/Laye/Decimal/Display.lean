import Laye.Decimal.Layout

/-!
# Floats in listings

How a float stands in the text of a compiled module: every float has a text, and two floats with
the same text are equal.
-/

namespace Laye

/-- Listings write a number without exponent from a ten-thousandth up to, but not including, ten to
the sixteenth, and take the upper one of two equally near decimals. -/
def Decimal.listing : Decimal.Layout := ⟨-3, 16, .up⟩

/-- The text of a float in listings. -/
def floatText (x : Float) : String :=
  match FloatClass.of x with
  | .nan => "NaN"
  | .infinite false => "inf"
  | .infinite true => "-inf"
  | .finite negative m q => String.ofList (Numeral.ofFinite Decimal.listing negative m q).chars

end Laye
