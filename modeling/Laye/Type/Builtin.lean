import Laye.Decimal.Numeral
import Laye.Type.Equality

/-!
# Built-in type keywords

Which keyword names which built-in type. Integers come in 8, 16, 32 and 64 bits and floats in 32
and 64; a keyword with another width is told apart from one that is no type at all.
-/

namespace Laye

/-- What a keyword is in the table of built-in types. -/
inductive Builtin where
  | type (ty : Ty)
  | unsupportedWidth (keyword : String) (bits : Nat)
  | unknown
deriving DecidableEq

namespace Builtin

/-- The widths of sized integers. -/
def integerWidths : List Nat := [8, 16, 32, 64]

/-- The widths of sized floats. -/
def floatWidths : List Nat := [32, 64]

/-- The width that stands for every width of more than 32 bits. -/
def widestWidth : Nat := Nat.pow 2 32 - 1

/-- The sized types of a letter, as a function of the width, and their widths. -/
def family? : Char → Option ((Nat → Ty) × List Nat)
  | 'i' => some (.sizedInt true, integerWidths)
  | 'u' => some (.sizedInt false, integerWidths)
  | 'f' => some (.sizedFloat, floatWidths)
  | _ => none

/-- A letter followed by a width. A width beyond 32 bits is refused before the letter is looked
at. -/
def ofSized (keyword : String) : Builtin :=
  match keyword.toList with
  | letter :: digits =>
    if digits.isEmpty || !digits.all Char.isDigit then .unknown
    else
      let bits := Numeral.digitsValue digits
      if widestWidth < bits then .unsupportedWidth keyword widestWidth
      else
        match family? letter with
        | none => .unknown
        | some (ty, widths) =>
          if bits ∈ widths then .type (ty bits) else .unsupportedWidth keyword bits
  | [] => .unknown

/-- Looks a keyword up. -/
def ofKeyword (keyword : String) : Builtin :=
  match keyword with
  | "void" => .type .void
  | "bool" => .type .bool
  | "rune" => .type .rune
  | "int" => .type (.int true)
  | "uint" => .type (.int false)
  | "float" => .type .float
  | "rawptr" => .type .rawptr
  | "string" => .type .string
  | _ => ofSized keyword

end Builtin

end Laye
