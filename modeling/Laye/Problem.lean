import Laye.Diagnostic
import Laye.Syntax.Operator
import Laye.Type.Basic

/-!
# What can be wrong with a program

A `Problem` is the cause of an error, with all that its message mentions; `Problem.message` is the
one place that words it. A `Fault` is a problem at a place. What checking and lowering find is a
list of `Finding`s: faults, and the warning about code that cannot be reached.
-/

namespace Laye

/-- Why a program is refused. -/
inductive Problem where
  -- Declarations
  | duplicateDeclaration (name : String)
  | duplicateField (field struct : String)
  | voidField (field : String)
  | duplicateVariant (variant enum : String)
  | variantOverflow (variant : String)
  | duplicateForeignModifier
  | duplicateConvention
  | layeVarArgs
  | voidParameter (name : String)
  | duplicateParameter (name : String)
  | noFunctionType (name : String)
  -- Written types
  | unsupportedWidth (keyword : String) (bits : Nat)
  | unknownBuiltin (keyword : String)
  | unknownType (name : String)
  | functionAsType (name : String)
  | notAType (name : String)
  | voidElement
  | emptyArray
  | recursiveType (name : String)
  -- Statements
  | outsideLoop (keyword : String)
  | untypedBinding
  | voidBinding (name : String)
  | duplicateBinding (name : String)
  | returnOutsideFunction
  | returnFromVoid (function : String)
  | missingReturnValue (function : String) (ty : Ty)
  | assignToValue
  | assignReadOnly (container : Ty)
  -- Expressions
  | unknownName (name : String)
  | typeAsValue (name : String)
  | calleeNotNamed
  | unknownFunction (name : String)
  | tooFewArguments (expected : Nat) (name : String) (given : Nat)
  | argumentCount (expected : Nat) (name : String) (given : Nat)
  | voidArgument
  | complementOperand (ty : Ty)
  | addressOfValue
  | dereferenceOperand (ty : Ty)
  | negateUnsigned (ty : Ty)
  | negateOperand (ty : Ty)
  | undefinedOperator (op : BinaryOp) (ty : Ty)
  | notIndexable (ty : Ty)
  | indexOperand (ty : Ty)
  | noFields (ty : Ty)
  | unknownField (struct field : String)
  | unknownVariant (enum variant : String)
  -- Conversions
  | noConversion (source target : Ty)
  | notNumericPair (left right : Ty)
  | notNumeric (ty : Ty)
  | noCommonType (left right : Ty)
  | signsDiffer (left right : Ty)
  | signsDifferAtWidth (left right : Ty)
  | negativeForUnsigned (magnitude : Nat) (ty : Ty)
  | outOfRange (negative : Bool) (magnitude : Nat) (ty : Ty) (limit : Nat)
  -- Lowering
  | notAFunction (name : String)
  | noStorage (name : String)
  | strayLoopControl
  | whileElse
  | yieldUnsupported
  | missingReturn (function : String)
deriving Inhabited

namespace Problem

/-- A name between backquotes. -/
def ticked (name : String) : String := "`" ++ name ++ "`"

/-- The wording of a problem. -/
def message : Problem → String
  | .duplicateDeclaration name =>
    ticked name ++
      " is already defined in this scope (function overloading is not supported)"
  | .duplicateField field struct =>
    "field " ++ ticked field ++ " is already defined in struct " ++ ticked struct
  | .voidField field => "field " ++ ticked field ++ " cannot have type void"
  | .duplicateVariant variant enum =>
    "variant " ++ ticked variant ++ " is already defined in enum " ++ ticked enum
  | .variantOverflow variant => "value of variant " ++ ticked variant ++ " overflows"
  | .duplicateForeignModifier => "only one extern modifier allowed per function declaration"
  | .duplicateConvention =>
    "only one calling convention modifier allowed per function declaration"
  | .layeVarArgs => "laye-style varargs are not supported yet"
  | .voidParameter name => "parameter " ++ ticked name ++ " cannot have type void"
  | .duplicateParameter name => "parameter " ++ ticked name ++ " is already defined"
  | .noFunctionType name => ticked name ++ " does not have a function type"
  | .unsupportedWidth keyword bits =>
    ticked keyword ++ " has an unsupported bit width of " ++ toString bits ++
      "; supported widths are " ++
      (if keyword.startsWith "f" then "32 or 64" else "8, 16, 32 or 64")
  | .unknownBuiltin keyword => "unknown built-in type " ++ ticked keyword
  | .unknownType name => "unknown type " ++ ticked name
  | .functionAsType name => ticked name ++ " is a function, not a type"
  | .notAType name => ticked name ++ " is not a type"
  | .voidElement => "`void` is not a valid element type"
  | .emptyArray => "array capacity must be greater than zero"
  | .recursiveType name => "recursive type " ++ ticked name ++ " is not supported"
  | .outsideLoop keyword => ticked keyword ++ " is only allowed inside a loop"
  | .untypedBinding => "`var` binding requires an initialization expression to type check"
  | .voidBinding name => "cannot declare binding " ++ ticked name ++ " of type void"
  | .duplicateBinding name => ticked name ++ " is already defined in this scope"
  | .returnOutsideFunction => "`return` is only allowed inside a function"
  | .returnFromVoid function => "cannot return a value from void function " ++ ticked function
  | .missingReturnValue function ty =>
    "function " ++ ticked function ++ " must return a value of type " ++ ty.text
  | .assignToValue => "cannot assign to this expression; it is not an l-value"
  | .assignReadOnly container => "cannot assign through read-only type " ++ container.text
  | .unknownName name =>
    "the name " ++ ticked name ++ " does not exist in the current context"
  | .typeAsValue name => ticked name ++ " is a type and cannot be used as a value"
  | .calleeNotNamed => "can only invoke top level functions"
  | .unknownFunction name => "failed to find function " ++ ticked name
  | .tooFewArguments expected name given =>
    "expected at least " ++ toString expected ++ " arguments to C-style varargs function " ++
      ticked name ++ ", got " ++ toString given
  | .argumentCount expected name given =>
    "expected " ++ toString expected ++ " arguments to function " ++ ticked name ++ ", got " ++
      toString given
  | .voidArgument => "cannot pass a void value as a variadic argument"
  | .complementOperand ty => "operator `~` requires an integer operand, found " ++ ty.text
  | .addressOfValue => "cannot take the address of this expression; it is not an l-value"
  | .dereferenceOperand ty => "cannot dereference a value of type " ++ ty.text
  | .negateUnsigned ty => "cannot negate a value of unsigned type " ++ ty.text
  | .negateOperand ty => "cannot negate a value of type " ++ ty.text
  | .undefinedOperator op ty =>
    "operator " ++ ticked op.symbol ++ " is not defined for type " ++ ty.text
  | .notIndexable ty => "cannot index a value of type " ++ ty.text
  | .indexOperand ty => "index must be an integer, found " ++ ty.text
  | .noFields ty => "type " ++ ty.text ++ " has no fields"
  | .unknownField struct field =>
    "struct " ++ ticked struct ++ " has no field named " ++ ticked field
  | .unknownVariant enum variant =>
    "enum " ++ ticked enum ++ " has no variant named " ++ ticked variant
  | .noConversion source target =>
    "unable to convert from " ++ source.text ++ " to " ++ target.text
  | .notNumericPair left right =>
    "operands of type " ++ left.text ++ " and " ++ right.text ++ " cannot be made numeric"
  | .notNumeric ty => ty.text ++ " cannot be made numeric"
  | .noCommonType left right => "unable to unify types " ++ left.text ++ " and " ++ right.text
  | .signsDiffer left right =>
    "unable to unify " ++ left.text ++ " and " ++ right.text ++
      ": the integer types differ in sign"
  | .signsDifferAtWidth left right =>
    "unable to unify " ++ left.text ++ " and " ++ right.text ++
      ": integer types of equal width differ in sign"
  | .negativeForUnsigned magnitude ty =>
    "negative value -" ++ toString magnitude ++ " cannot be converted to unsigned type " ++ ty.text
  | .outOfRange negative magnitude ty limit =>
    "value " ++ (if negative then "-" else "") ++ toString magnitude ++
      " is out of range for type " ++ ty.text ++ " (must be " ++
      (if negative then "at least -" else "at most ") ++ toString limit ++ ")"
  | .notAFunction name => ticked name ++ " is not a function"
  | .noStorage name => ticked name ++ " has no storage to load from"
  | .strayLoopControl => "loop control used outside of a loop"
  | .whileElse => "`while` with an `else` body cannot be lowered"
  | .yieldUnsupported => "`yield` cannot be lowered yet"
  | .missingReturn function =>
    "not all code paths return a value in function " ++ ticked function

end Problem

/-- A problem at a place. -/
structure Fault where
  span : Span
  problem : Problem
deriving Inhabited

/-- What checking or lowering found. -/
inductive Finding where
  | fault (fault : Fault)
  /-- Statements that can never run. -/
  | unreachable (span : Span)
deriving Inhabited

namespace Finding

/-- Whether the finding is an error. -/
def isFault : Finding → Bool
  | .fault _ => true
  | .unreachable _ => false

/-- The finding as a diagnostic. -/
def toDiagnostic : Finding → Diagnostic
  | .fault f => ⟨.error, f.span, f.problem.message⟩
  | .unreachable span => ⟨.warning, span, "unreachable code detected"⟩

end Finding

end Laye
