/-!
# Written decimal numbers

A `Numeral` is a decimal number as it stands in a text: an optional minus sign, whole digits, and
optional fraction and exponent digits. `Numeral.scan` accepts exactly the numbers of the JSON
grammar (no leading zero, no sign `+` in front, digits on both sides of a point), and
`Numeral.chars` writes one.

A numeral is read as a natural number (`natural?`) or as a float (`toFloat?`). The float reader
keeps a significand of 64 bits and scales it by a power of ten in floating point, so the last bit
may differ from the correctly rounded value.
-/

namespace Laye

/-- A decimal number as written. Digits are the characters `0` to `9`; an empty `fraction` stands
for no fraction. -/
structure Numeral where
  negative : Bool
  whole : List Char
  fraction : List Char
  /-- Whether the exponent has a minus sign, and its digits. -/
  exponent : Option (Bool × List Char)
deriving DecidableEq, Repr, Inhabited

namespace Numeral

/-- The value of a decimal digit. -/
def digit (c : Char) : Nat := c.toNat - '0'.toNat

/-- The number that a list of digits denotes. -/
def digitsValue (ds : List Char) : Nat := ds.foldl (fun n d => 10 * n + digit d) 0

/-- The numeral of a natural number. -/
def ofNat (n : Nat) : Numeral := ⟨false, Nat.toDigits 10 n, [], none⟩

/-- The written exponent. -/
def exponentChars : Option (Bool × List Char) → List Char
  | none => []
  | some (true, ds) => 'e' :: '-' :: ds
  | some (false, ds) => 'e' :: ds

/-- The written fraction. -/
def fractionChars : List Char → List Char
  | [] => []
  | ds => '.' :: ds

/-- The characters of a numeral. -/
def chars (n : Numeral) : List Char :=
  (if n.negative then ['-'] else []) ++ n.whole ++ fractionChars n.fraction ++
    exponentChars n.exponent

/-! ### Scanning -/

/-- The digits at the front of a text, and what follows them. -/
def scanDigits (cs : List Char) : List Char × List Char :=
  (cs.takeWhile Char.isDigit, cs.dropWhile Char.isDigit)

/-- The whole digits: a single zero, or digits that do not start with zero. -/
def scanWhole (cs : List Char) : Option (List Char × List Char) :=
  match scanDigits cs with
  | ([], _) => none
  | (['0'], rest) => some (['0'], rest)
  | ('0' :: _, _) => none
  | (ds, rest) => some (ds, rest)

/-- The fraction digits, if a point follows. -/
def scanFraction : List Char → Option (List Char × List Char)
  | '.' :: cs =>
    match scanDigits cs with
    | ([], _) => none
    | (ds, rest) => some (ds, rest)
  | cs => some ([], cs)

/-- The exponent digits after the exponent's sign. -/
def scanExponentDigits (negative : Bool) (cs : List Char) :
    Option (Option (Bool × List Char) × List Char) :=
  match scanDigits cs with
  | ([], _) => none
  | (ds, rest) => some (some (negative, ds), rest)

/-- The exponent, if an exponent mark follows. -/
def scanExponent : List Char → Option (Option (Bool × List Char) × List Char)
  | c :: cs =>
    if c = 'e' ∨ c = 'E' then
      match cs with
      | '+' :: rest => scanExponentDigits false rest
      | '-' :: rest => scanExponentDigits true rest
      | rest => scanExponentDigits false rest
    else some (none, c :: cs)
  | [] => some (none, [])

/-- The numeral at the front of a text, and what follows it. -/
def scan (cs : List Char) : Option (Numeral × List Char) :=
  let (negative, cs) := match cs with
    | '-' :: rest => (true, rest)
    | cs => (false, cs)
  (scanWhole cs).bind fun (whole, cs) =>
    (scanFraction cs).bind fun (fraction, cs) =>
      (scanExponent cs).map fun (exponent, rest) => (⟨negative, whole, fraction, exponent⟩, rest)

/-! ### Values -/

/-- The natural number a numeral denotes, if it is written as one: no sign, fraction or
exponent. -/
def natural? (n : Numeral) : Option Nat :=
  if n.negative ∨ n.fraction ≠ [] ∨ n.exponent.isSome then none
  else some (digitsValue n.whole)

/-- The largest significand the float reader keeps. -/
def significandLimit : Nat := Nat.pow 2 64 - 1

/-- Appends digits to a significand for as long as it stays within its limit. Gives the digits
that were left out. -/
def extend : Nat → List Char → Nat × List Char
  | s, [] => (s, [])
  | s, d :: ds =>
    if significandLimit < 10 * s + digit d then (s, d :: ds)
    else extend (10 * s + digit d) ds

/-- The float nearest to a power of ten. -/
def powerOfTen (n : Nat) : Float := Float.ofScientific 1 false n

/-- `f` times ten to the power `e`, in floating point. There is none when the product overflows.
Below the range of powers, `f` is first divided by the largest one; after two such steps nothing
is left of it. -/
def scale : Nat → Float → Int → Option Float
  | 0, _, _ => some 0
  | steps + 1, f, e =>
    if e.natAbs ≤ 308 then
      if 0 ≤ e then
        let product := f * powerOfTen e.toNat
        if product.isInf then none else some product
      else some (f / powerOfTen (-e).toNat)
    else if f == 0 then some f
    else if 0 ≤ e then none
    else scale steps (f / powerOfTen 308) (e + 308)

/-- The number an exponent denotes. -/
def exponentValue : Option (Bool × List Char) → Int
  | none => 0
  | some (true, ds) => - (digitsValue ds : Int)
  | some (false, ds) => digitsValue ds

/-- The float a numeral denotes; none when it is out of range. -/
def toFloat? (n : Numeral) : Option Float :=
  let (whole, wholeLeft) := extend 0 n.whole
  let (significand, fractionLeft) := extend whole n.fraction
  let shift : Int := wholeLeft.length - (n.fraction.length - fractionLeft.length : Nat)
  (scale 3 (Float.ofNat significand) (shift + exponentValue n.exponent)).map fun f =>
    if n.negative then -f else f

end Numeral

end Laye
