import Laye.Type.Basic

/-!
# The intermediate representation

Three-address code over basic blocks. Variables live in stack slots, so values pass between blocks
through loads and stores. A register is given its value by one instruction.
-/

namespace Laye.IR

/-- The number of a register. -/
abbrev Register : Type := Nat

/-- The number of a block. -/
abbrev BlockId : Type := Nat

/-- How a register is written. -/
def Register.text (r : Register) : String := "%" ++ toString r

/-- How a block is referred to. -/
def BlockId.text (b : BlockId) : String := "bb" ++ toString b

/-! ### Types -/

/-- The width of an integer. -/
inductive Width where
  | w8
  | w16
  | w32
  | w64
deriving DecidableEq, Repr, Inhabited

/-- The number of bits of a width. -/
def Width.bits : Width → Nat
  | .w8 => 8
  | .w16 => 16
  | .w32 => 32
  | .w64 => 64

/-- A type as the machine sees it. -/
inductive Ty where
  | void
  | bool
  | int (signed : Bool) (width : Width)
  | f32
  | f64
  | ptr (element : Ty)
  | array (element : Ty) (size : Nat)
  /-- A pointer and a length. -/
  | slice (element : Ty)
  | struct (name : String)
  | function (params : List Ty) (ret : Ty)
deriving Repr, Inhabited

namespace Ty

/-- Whether the type is a signed integer. -/
def isSigned : Ty → Bool
  | .int signed _ => signed
  | _ => false

/-- Whether the type is a float. -/
def isFloat : Ty → Bool
  | .f32 | .f64 => true
  | _ => false

mutual

/-- The text of a type. -/
def text : Ty → String
  | .void => "void"
  | .bool => "bool"
  | .int true width => "i" ++ toString width.bits
  | .int false width => "u" ++ toString width.bits
  | .f32 => "f32"
  | .f64 => "f64"
  | .ptr element => "*" ++ element.text
  | .array element size => "[" ++ element.text ++ "; " ++ toString size ++ "]"
  | .slice element => "[" ++ element.text ++ "]"
  | .struct name => "%" ++ name
  | .function params ret => "fn(" ++ ", ".intercalate (listText params) ++ ") -> " ++ ret.text

/-- The texts of types. -/
def listText : List Ty → List String
  | [] => []
  | ty :: tys => ty.text :: listText tys

end

end Ty

/-! ### Code -/

/-- A constant. -/
inductive Constant where
  | int (value : Int)
  | float (value : Float)
  | bool (value : Bool)
  | string (value : String)
deriving Repr, Inhabited

/-- What an instruction takes as an operand. -/
inductive Value where
  | register (register : Register)
  | constant (constant : Constant)
  /-- An argument of the function, by its place. -/
  | param (place : Nat)
  /-- A function, by its name. -/
  | global (name : String)
  /-- The value of a call that gives none. -/
  | unit
deriving Repr, Inhabited

/-- An operation on two values. -/
inductive BinaryOp where
  | add | sub | mul | div | mod
  | eq | ne | lt | le | gt | ge
  | and | or | xor | shl | shr
deriving DecidableEq, Repr, Inhabited

/-- An operation on one value. -/
inductive UnaryOp where
  | neg
  | not
  | bitNot
deriving DecidableEq, Repr, Inhabited

/-- A step of a block. -/
inductive Instruction where
  /-- A new stack slot. -/
  | alloca (dest : Register) (ty : Ty)
  | load (dest : Register) (ptr : Value) (ty : Ty)
  | store (ptr value : Value)
  /-- An operation on two values of the given type. -/
  | binary (dest : Register) (op : BinaryOp) (left right : Value) (ty : Ty)
  | unary (dest : Register) (op : UnaryOp) (value : Value)
  | call (dest : Option Register) (function : String) (args : List Value)
  | cast (dest : Register) (value : Value) (source target : Ty)
  /-- An owned copy of what the value refers to. -/
  | materialize (dest : Register) (value : Value) (ty : Ty)
  /-- The pointer of a slice. -/
  | sliceData (dest : Register) (value : Value)
  /-- The address of an element. -/
  | element (dest : Register) (ptr index : Value) (ty : Ty)
  /-- The address of a field. -/
  | field (dest : Register) (ptr : Value) (struct : String) (place : Nat)
deriving Repr, Inhabited

/-- How a block ends. -/
inductive Terminator where
  | ret (value : Option Value)
  | jump (target : BlockId)
  | branch (condition : Value) (thenTarget elseTarget : BlockId)
  | unreachable
deriving Repr, Inhabited

/-- A basic block. One without a terminator is open. -/
structure Block where
  id : BlockId
  label : String
  instructions : List Instruction
  terminator : Option Terminator
deriving Repr, Inhabited

namespace Block

/-- A block without code. -/
def empty (id : BlockId) (label : String) : Block := ⟨id, label, [], none⟩

/-- Whether the block has its terminator. -/
def isClosed (b : Block) : Bool := b.terminator.isSome

/-- The block with one instruction more. -/
def push (b : Block) (i : Instruction) : Block :=
  { b with instructions := b.instructions ++ [i] }

/-- The block with a terminator. -/
def close (b : Block) (t : Terminator) : Block := { b with terminator := some t }

end Block

/-! ### Modules -/

/-- A function with its code. -/
structure Function where
  name : String
  params : List (String × Ty)
  ret : Ty
  convention : CallingConvention
  blocks : List Block
  /-- The block that a call starts with. -/
  entry : BlockId
deriving Repr, Inhabited

/-- A function that is defined elsewhere. -/
structure External where
  name : String
  library : Option String
  params : List (String × Ty)
  ret : Ty
  convention : CallingConvention
  varArgs : VarArgs
deriving Repr, Inhabited

/-- A struct with the types of its fields. -/
structure Struct where
  name : String
  fields : List (String × Ty)
deriving Repr, Inhabited

/-- A lowered compilation unit. -/
structure Module where
  name : String
  functions : List Function
  structs : List Struct
  externals : List External
deriving Repr, Inhabited

namespace Module

/-- A module that holds nothing. -/
def empty (name : String) : Module := ⟨name, [], [], []⟩

/-- The function of a name. -/
def function? (m : Module) (name : String) : Option Function :=
  m.functions.find? (·.name == name)

end Module

end Laye.IR
