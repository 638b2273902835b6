import Laye.Problem
import Laye.Typed.Basic

/-!
# Implicit conversions

A literal has no type until its context gives it one. An integer literal must fit the type it is
given; values that already have a type are converted without a check. `Conversion.between` says
which pairs of types convert at all and how, `Typed.Expr.convertTo` does it, and
`Typed.Expr.unify` brings the two operands of a numeric operator to one type.
-/

namespace Laye

/-- How a value of one type becomes one of another. -/
inductive Conversion where
  /-- The types agree. -/
  | keep
  /-- An integer literal that must be in range. -/
  | literal
  /-- An integer literal as an address: first an unsigned integer, then a raw pointer. -/
  | address
  /-- An integer literal as a float. -/
  | toFloat
  /-- A literal that takes the type as it is. -/
  | retype
  | cast
  | materialize
deriving DecidableEq, Repr, Inhabited

namespace Conversion

/-- The conversion from one type to another, if there is one. -/
def between (source target : Ty) : Option Conversion :=
  if source = target then some .keep
  else
    match source with
    | .untypedInt _ =>
      match target with
      | .int _ | .sizedInt _ _ => some .literal
      | .rawptr => some .address
      | .float | .sizedFloat _ => some .toFloat
      | _ => none
    | .untypedFloat =>
      match target with
      | .float | .sizedFloat _ => some .retype
      | _ => none
    | .untypedBool =>
      match target with
      | .bool => some .retype
      | _ => none
    | .untypedString => if target = .string ∨ target = .cString then some .retype else none
    | .rawptr =>
      match target with
      | .buffer _ _ => some .cast
      | _ => none
    | .pointer element .readWrite =>
      match target with
      | .pointer other _ => if element = other then some .cast else none
      | _ => none
    | .buffer element .readWrite =>
      match target with
      | .buffer other _ => if element = other then some .cast else none
      | .rawptr => some .cast
      | _ => none
    | .slice element access =>
      match target with
      | .slice other _ => if access = .readWrite ∧ element = other then some .cast else none
      | .string => if element = .u8 then some .materialize else none
      | _ => none
    | _ => none

end Conversion

/-- The largest magnitude that a literal of an integer type may have. -/
def literalLimit (signed : Bool) (bits : Nat) (negative : Bool) : Nat :=
  if signed then
    if negative then Nat.pow 2 (bits - 1) else Nat.pow 2 (bits - 1) - 1
  else Nat.pow 2 bits - 1

/-- What keeps an integer literal out of a type, if anything does. -/
def literalProblem? (magnitude : Nat) (negative : Bool) (target : Ty) : Option Problem :=
  match target.integerInfo? with
  | none => none
  | some (signed, bits) =>
    if negative && magnitude != 0 && !signed then some (.negativeForUnsigned magnitude target)
    else
      let limit := literalLimit signed bits negative
      if magnitude ≤ limit then none else some (.outOfRange negative magnitude target limit)

/-- The type that operands of two concrete types are brought to. The platform's integer wins over
a sized one, and a wider sized one over a narrower. -/
def commonType (left right : Ty) : Except Problem Ty :=
  if left = right then .ok left
  else
    match left.integerInfo?, right.integerInfo? with
    | some (_, leftBits), some (_, rightBits) =>
      match left, right with
      | .int _, .int _ => .error (.signsDiffer left right)
      | .int _, _ => .ok left
      | _, .int _ => .ok right
      | _, _ =>
        if rightBits < leftBits then .ok left
        else if leftBits < rightBits then .ok right
        else .error (.signsDifferAtWidth left right)
    | _, _ => .error (.noCommonType left right)

namespace Typed.Expr

/-- A fault at the expression. -/
def fault {α : Type} (e : Expr) (problem : Problem) : Except Fault α := .error ⟨e.span, problem⟩

/-- An integer literal at an integer type, if it fits. -/
def literalAs (e : Expr) (target : Ty) : Except Fault Expr :=
  match e with
  | .integer _ span magnitude negative =>
    match literalProblem? magnitude negative target with
    | some problem => e.fault problem
    | none => .ok (.integer target span magnitude negative)
  | _ => e.fault (.noConversion e.ty target)

/-- An integer literal as a float of a type. -/
def literalToFloat (e : Expr) (target : Ty) : Expr :=
  match e with
  | .integer _ span magnitude negative =>
    let value := Float.ofNat magnitude
    .float target span (if negative then -value else value)
  | _ => e.castTo target

/-- Converts an expression to a type. -/
def convertTo (e : Expr) (target : Ty) : Except Fault Expr :=
  match Conversion.between e.ty target with
  | some .keep => .ok e
  | some .literal => e.literalAs target
  | some .address => do
    let e ← e.literalAs (.int false)
    .ok (e.castTo target)
  | some .toFloat => .ok (e.literalToFloat target)
  | some .retype => .ok (e.retype target)
  | some .cast => .ok (e.castTo target)
  | some .materialize => .ok (e.materializeTo target)
  | none => e.fault (.noConversion e.ty target)

/-- Gives a literal the type it has when nothing else decides. -/
def withDefaultType (e : Expr) : Except Fault Expr :=
  match e.ty with
  | .untypedInt signed => e.literalAs (.int signed)
  | .untypedFloat => .ok (e.retype .float)
  | .untypedBool => .ok (e.retype .bool)
  | .untypedString => .ok (e.retype .string)
  | _ => .ok e

/-- An argument beyond the parameters of a C function: small integers and floats are widened. -/
def promoted (e : Expr) : Except Fault Expr :=
  match e.ty with
  | .untypedString => .ok (e.retype .cString)
  | .sizedInt signed bits =>
    if bits < 32 then .ok (e.castTo (.sizedInt signed 32)) else .ok e
  | .sizedFloat bits => if bits < 64 then .ok (e.castTo .f64) else .ok e
  | .void => e.fault .voidArgument
  | _ => e.withDefaultType

/-- The operand of a float operator as a float. -/
def toFloat (e : Expr) : Except Fault Expr :=
  match e.ty with
  | .float => .ok e
  | .untypedFloat => .ok (e.retype .float)
  | .untypedInt _ => .ok (e.literalToFloat .float)
  | .int _ | .sizedInt _ _ | .sizedFloat _ => .ok (e.castTo .float)
  | _ => e.fault (.notNumeric e.ty)

/-- The expression at a type, by a cast unless it has the type already. -/
def widenTo (e : Expr) (ty : Ty) : Expr := if e.ty = ty then e else e.castTo ty

/-- Brings two operands of concrete types to their common type. -/
def unifyConcrete (left right : Expr) : Except Fault (Expr × Expr) :=
  match commonType left.ty right.ty with
  | .ok ty => .ok (left.widenTo ty, right.widenTo ty)
  | .error problem => .error ⟨left.span.combine right.span, problem⟩

/-- Brings the two operands of a numeric operator to a common type. -/
def unify (left right : Expr) : Except Fault (Expr × Expr) :=
  if left.ty.isFloatLike || right.ty.isFloatLike then do
    let left ← left.toFloat
    let right ← right.toFloat
    .ok (left, right)
  else
    match left.ty, right.ty with
    | .untypedInt leftSigned, .untypedInt rightSigned => do
      let left ← left.literalAs (.int leftSigned)
      let right ← right.literalAs (.int rightSigned)
      .ok (left, right)
    | .untypedInt _, ty =>
      if ty.isInteger then do
        let left ← left.literalAs ty
        .ok (left, right)
      else notNumeric
    | ty, .untypedInt _ =>
      if ty.isInteger then do
        let right ← right.literalAs ty
        .ok (left, right)
      else notNumeric
    | leftTy, rightTy =>
      if leftTy.isUntyped || rightTy.isUntyped then notNumeric else unifyConcrete left right
where
  notNumeric : Except Fault (Expr × Expr) :=
    .error ⟨left.span.combine right.span, .notNumericPair left.ty right.ty⟩

end Typed.Expr

end Laye
