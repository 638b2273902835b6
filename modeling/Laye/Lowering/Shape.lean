import Laye.IR.Basic
import Laye.Typed.Basic

/-!
# What types and operators become

The machine's type for each type of the language, and its operation for each operator.
-/

namespace Laye

namespace Ty

/-- The width of an integer type. A width the machine does not have becomes its widest. -/
def machineWidth : Nat → IR.Width
  | 8 => .w8
  | 16 => .w16
  | 32 => .w32
  | _ => .w64

mutual

/-- The machine's type for a type. -/
def shape : Ty → IR.Ty
  | .void | .param _ => .void
  | .bool | .untypedBool => .bool
  | .rune => .int false .w32
  | .int signed | .untypedInt signed => .int signed .w64
  | .sizedInt signed bits => .int signed (machineWidth bits)
  | .float | .untypedFloat => .f64
  | .sizedFloat bits => if bits = 32 then .f32 else .f64
  | .rawptr => .ptr .void
  | .array element capacity _ => .array element.shape capacity
  | .pointer element _ | .buffer element _ => .ptr element.shape
  | .slice element _ => .slice element.shape
  | .string | .untypedString => .slice (.int false .w8)
  | .function signature => .ptr (signatureShape signature)
  | .struct name _ _ | .union name _ _ | .structRef name => .struct name
  | .enum _ _ => .int false .w64

/-- The machine's type for a function. -/
def signatureShape : Signature → IR.Ty
  | ⟨_, _, _, returnType, params, _⟩ => .function (paramShapes params) returnType.shape

/-- The machine's types for parameters. -/
def paramShapes : List (String × Ty) → List IR.Ty
  | [] => []
  | (_, ty) :: params => ty.shape :: paramShapes params

end

end Ty

/-- Names with the machine's types for theirs. -/
def namedShapes (fields : List (String × Ty)) : List (String × IR.Ty) :=
  fields.map fun (name, ty) => (name, ty.shape)

/-- The machine's operation for an operator. -/
def BinaryOp.operation : BinaryOp → IR.BinaryOp
  | .add => .add
  | .sub => .sub
  | .mul => .mul
  | .div => .div
  | .mod => .mod
  | .bitAnd | .logicalAnd => .and
  | .bitOr | .logicalOr => .or
  | .bitXor => .xor
  | .shl => .shl
  | .shr => .shr
  | .eq => .eq
  | .ne => .ne
  | .lt => .lt
  | .le => .le
  | .gt => .gt
  | .ge => .ge

/-- The machine's operation for an operator. -/
def Typed.UnaryOp.operation : Typed.UnaryOp → IR.UnaryOp
  | .neg => .neg
  | .not => .not
  | .bitNot => .bitNot

end Laye
