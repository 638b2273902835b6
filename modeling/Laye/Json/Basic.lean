import Laye.Decimal.Layout

/-!
# JSON values

A `Json` value keeps what a text says: numbers as they are written and object members in their
order, repeated keys included. A value that was read may hold flaws (`Json.flaw`), which mark where
the text is not JSON or not Unicode; a value that is to be written holds none.
-/

namespace Laye

/-- What is wrong with a place of a JSON text. -/
inductive Json.Flaw where
  /-- The text is not JSON from here on. -/
  | ended
  /-- A string in which an escape stands for half of a surrogate pair. -/
  | halfPair
  /-- An object member whose key has such an escape. -/
  | halfPairKey
deriving DecidableEq, Repr

/-- A JSON value. -/
inductive Json where
  | null
  | bool (value : Bool)
  | number (value : Numeral)
  | string (value : String)
  | array (items : List Json)
  | object (members : List (String × Json))
  | flaw (cause : Json.Flaw)
deriving Repr, Inhabited

namespace Json

/-- A natural number as JSON. -/
def nat (n : Nat) : Json := .number (.ofNat n)

/-- How floats stand in JSON: with a point while it is at most four places before the digits or
sixteen after the first, and the even one of two equally near decimals. -/
def floatLayout : Decimal.Layout := ⟨-4, 16, .even⟩

/-- A float as JSON. Infinities and NaN have no numeral and become `null`. -/
def float (x : Float) : Json :=
  match FloatClass.of x with
  | .finite negative m q => .number (.ofFinite floatLayout negative m q)
  | _ => .null

/-- A value or `null`. -/
def option {α : Type} (encode : α → Json) : Option α → Json
  | none => .null
  | some a => encode a

/-- One alternative of several, told apart by its name. -/
def tagged (name : String) (payload : Json) : Json := .object [(name, payload)]

end Json

end Laye
