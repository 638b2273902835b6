/-!
# Types of the language

A `Ty` is a plain value: two types are the same when they are built alike. The untyped ones belong
to literals whose context has not fixed a type yet. A struct reached through a pointer, buffer or
slice is held by name only (`Ty.structRef`), which lets a struct point to itself; `Ty.pointerTo`,
`Ty.bufferOf` and `Ty.sliceOf` see to that.
-/

namespace Laye

/-- How a function is called. -/
inductive CallingConvention where
  | laye
  | layeNoContext
  | cdecl
  | stdcall
  | fastcall
deriving DecidableEq, Repr, Inhabited

/-- How a function takes arguments beyond its parameters. -/
inductive VarArgs where
  | none
  | laye
  | c
deriving DecidableEq, Repr, Inhabited

/-- What may be done through a container. -/
inductive Access where
  | readWrite
  | readOnly
  | writeOnly
  | constant
deriving DecidableEq, Repr, Inhabited

/-- Whether nothing may be written through the container. -/
def Access.forbidsWriting : Access → Bool
  | .readOnly | .constant => true
  | .readWrite | .writeOnly => false

/-- The word for an access in the text of a type. -/
def Access.suffix : Access → String
  | .readWrite => ""
  | .readOnly => " readonly"
  | .writeOnly => " writeonly"
  | .constant => " const"

mutual

/-- A type. -/
inductive Ty where
  | void
  | bool
  | rune
  /-- The integer of the platform's width, which is 64 bits. -/
  | int (signed : Bool)
  | sizedInt (signed : Bool) (bits : Nat)
  | float
  | sizedFloat (bits : Nat)
  | rawptr
  | array (element : Ty) (capacity : Nat) (access : Access)
  | pointer (element : Ty) (access : Access)
  /-- Elements behind a pointer, without a length. -/
  | buffer (element : Ty) (access : Access)
  /-- Elements behind a pointer, with a length. -/
  | slice (element : Ty) (access : Access)
  /-- Bytes that are owned, with a length. -/
  | string
  | function (signature : Signature)
  | struct (name : String) (typeParams : List TypeParam) (fields : List (String × Ty))
  /-- A struct named from behind a pointer, buffer or slice. -/
  | structRef (name : String)
  | union (name : String) (typeParams : List TypeParam) (variants : List (String × Ty))
  | enum (name : String) (variants : List (String × Nat))
  /-- A type parameter. -/
  | param (name : String)
  | untypedInt (signed : Bool)
  | untypedFloat
  | untypedBool
  | untypedString

/-- The type of a function. -/
structure Signature where
  name : String
  typeParams : List TypeParam
  convention : CallingConvention
  returnType : Ty
  params : List (String × Ty)
  varArgs : VarArgs

/-- A parameter of a generic declaration: a type, or a constant of a type. -/
inductive TypeParam where
  | type (name : String)
  | constant (ty : Ty) (name : String)

end

instance : Inhabited Ty := ⟨.void⟩

instance : Inhabited Signature := ⟨"", [], default, .void, [], .none⟩

/-- The types of a function's parameters. -/
def Signature.paramTypes (f : Signature) : List Ty := f.params.map Prod.snd

namespace Ty

/-! ### Particular types -/

/-- The byte. -/
def u8 : Ty := .sizedInt false 8

/-- The double. -/
def f64 : Ty := .sizedFloat 64

/-- A struct that stands behind indirection is held by name. -/
def indirect : Ty → Ty
  | .struct name _ _ => .structRef name
  | ty => ty

/-- A pointer to a value of the type. -/
def pointerTo (element : Ty) (access : Access) : Ty := .pointer element.indirect access

/-- A buffer of values of the type. -/
def bufferOf (element : Ty) (access : Access) : Ty := .buffer element.indirect access

/-- A slice of values of the type. -/
def sliceOf (element : Ty) (access : Access) : Ty := .slice element.indirect access

/-- The type of a string constant that is passed to C code. -/
def cString : Ty := bufferOf u8 .readOnly

/-! ### Kinds of types -/

/-- Whether the type belongs to a literal that has none yet. -/
def isUntyped : Ty → Bool
  | .untypedInt _ | .untypedFloat | .untypedBool | .untypedString => true
  | _ => false

/-- Whether the type is an integer type. -/
def isInteger : Ty → Bool
  | .int _ | .sizedInt _ _ => true
  | _ => false

/-- Whether the type is a float type or that of a float literal. -/
def isFloatLike : Ty → Bool
  | .untypedFloat | .float | .sizedFloat _ => true
  | _ => false

/-- Whether the type is the truth type or that of a truth literal. -/
def isBoolLike : Ty → Bool
  | .untypedBool | .bool => true
  | _ => false

/-- Whether the type is that of no value. -/
def isVoid : Ty → Bool
  | .void => true
  | _ => false

/-- The sign and width of an integer type. -/
def integerInfo? : Ty → Option (Bool × Nat)
  | .int signed => some (signed, 64)
  | .sizedInt signed bits => some (signed, bits)
  | _ => none

mutual

/-- Whether an untyped placeholder occurs anywhere in the type. -/
def containsUntyped : Ty → Bool
  | .untypedInt _ | .untypedFloat | .untypedBool | .untypedString => true
  | .array element _ _ | .pointer element _ | .buffer element _ | .slice element _ =>
    element.containsUntyped
  | .function signature => signatureContainsUntyped signature
  | .struct _ _ fields => fieldsContainUntyped fields
  | .union _ _ variants => fieldsContainUntyped variants
  | _ => false

/-- Whether a placeholder occurs in what the function takes or gives. -/
def signatureContainsUntyped : Signature → Bool
  | ⟨_, _, _, returnType, params, _⟩ =>
    returnType.containsUntyped || fieldsContainUntyped params

/-- Whether a placeholder occurs in the type of some field. -/
def fieldsContainUntyped : List (String × Ty) → Bool
  | [] => false
  | (_, ty) :: fields => ty.containsUntyped || fieldsContainUntyped fields

end

/-- The text of a type. -/
def text : Ty → String
  | .void => "void"
  | .bool => "bool"
  | .rune => "rune"
  | .int true => "int"
  | .int false => "uint"
  | .sizedInt true bits => "i" ++ toString bits
  | .sizedInt false bits => "u" ++ toString bits
  | .float => "float"
  | .sizedFloat bits => "f" ++ toString bits
  | .rawptr => "rawptr"
  | .array element capacity access =>
    element.text ++ access.suffix ++ "[" ++ toString capacity ++ "]"
  | .pointer element access => element.text ++ access.suffix ++ "*"
  | .buffer element access => element.text ++ access.suffix ++ "[*]"
  | .slice element access => element.text ++ access.suffix ++ "[]"
  | .string => "string"
  | .function signature => "function " ++ signature.name
  | .struct name _ _ | .union name _ _ | .enum name _ | .structRef name | .param name => name
  | .untypedInt _ => "untyped int"
  | .untypedFloat => "untyped float"
  | .untypedBool => "untyped bool"
  | .untypedString => "untyped string"

end Ty

end Laye
