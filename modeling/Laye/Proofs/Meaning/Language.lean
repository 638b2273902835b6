import Laye.Lowering.Shape

/-!
# What operators and types stand for

The meaning of trees (`Laye.Proofs.Meaning.Tree`) is given by the operations of a `Machine`. This
module says which of them an operator stands for, and as what the values of a type are held. Nothing
is taken from lowering. That lowering chooses the same operations and the same types is proved at
the end (`BinaryOp.meaning_eq_computes`, `Ty.held_eq_shape`). -/

namespace Laye

/-! ### Operators -/

/-- What a binary operator does. -/
inductive BinaryOp.Meaning where
  /-- It computes with the values of both operands. -/
  | computes (operation : IR.BinaryOp)
  /-- It gives the value of the left operand if that is the given truth value, and otherwise that of
  the right operand, which is not evaluated before. -/
  | decidedBy (answer : Bool)

/-- The meaning of a binary operator. -/
def BinaryOp.meaning : BinaryOp → BinaryOp.Meaning
  | .add => .computes .add
  | .sub => .computes .sub
  | .mul => .computes .mul
  | .div => .computes .div
  | .mod => .computes .mod
  | .bitAnd => .computes .and
  | .bitOr => .computes .or
  | .bitXor => .computes .xor
  | .shl => .computes .shl
  | .shr => .computes .shr
  | .eq => .computes .eq
  | .ne => .computes .ne
  | .lt => .computes .lt
  | .le => .computes .le
  | .gt => .computes .gt
  | .ge => .computes .ge
  | .logicalAnd => .decidedBy false
  | .logicalOr => .decidedBy true

/-- The meaning of a unary operator. -/
def Typed.UnaryOp.meaning : Typed.UnaryOp → IR.UnaryOp
  | .neg => .neg
  | .not => .not
  | .bitNot => .bitNot

/-! ### Types -/

/-- The width of the machine's integers that hold integers of a number of bits. Those of an odd
number are held in the widest. -/
def IR.Width.holding (bits : Nat) : IR.Width := ([.w8, .w16, .w32].find? (·.bits == bits)).getD .w64

mutual

/-- The type of the machine that the values of a type are held in. -/
def Ty.held : Ty → IR.Ty
  | .void | .param _ => .void
  | .bool | .untypedBool => .bool
  -- a code point
  | .rune => .int false (.holding 32)
  | .int signed | .untypedInt signed => .int signed (.holding 64)
  | .sizedInt signed bits => .int signed (.holding bits)
  | .float | .untypedFloat => .f64
  | .sizedFloat 32 => .f32
  | .sizedFloat _ => .f64
  | .rawptr => .ptr .void
  | .pointer element _ | .buffer element _ => .ptr element.held
  | .array element capacity _ => .array element.held capacity
  -- a pointer and a length
  | .slice element _ => .slice element.held
  | .string | .untypedString => .slice (.int false (.holding 8))
  -- by name, so that a struct may point to itself
  | .struct name _ _ | .structRef name | .union name _ _ => .struct name
  -- the number of the variant
  | .enum _ _ => .int false (.holding 64)
  | .function signature => .ptr (signatureHeld signature)

/-- The type of the machine for a function. -/
def Ty.signatureHeld : Signature → IR.Ty
  | ⟨_, _, _, returnType, params, _⟩ => .function (paramsHeld params) returnType.held

/-- The types of the machine for parameters. -/
def Ty.paramsHeld : List (String × Ty) → List IR.Ty
  | [] => []
  | (_, ty) :: params => ty.held :: paramsHeld params

end

/-! ### Lowering agrees -/

variable {op : BinaryOp}

theorem BinaryOp.meaning_eq_computes (h : op.isLogical = false) :
    op.meaning = .computes op.operation := by
  cases op with
  | logicalAnd | logicalOr => cases h
  | _ => rfl

/-- Logical operators are decided by their left operand, where it settles them. -/
theorem BinaryOp.meaning_eq_decidedBy (h : op.isLogical = true) :
    op.meaning = .decidedBy (!(op == .logicalAnd)) := by
  cases op with
  | logicalAnd | logicalOr => rfl
  | _ => cases h

theorem Typed.UnaryOp.meaning_eq_operation (op : Typed.UnaryOp) : op.meaning = op.operation := by
  cases op <;> rfl

namespace Ty

theorem holding_eq_machineWidth (bits : Nat) : IR.Width.holding bits = machineWidth bits := by
  unfold machineWidth
  split
  · rfl
  · rfl
  · rfl
  · rename_i h8 h16 h32
    have hnone : [IR.Width.w8, .w16, .w32].find? (·.bits == bits) = none := by
      simp [IR.Width.bits, Ne.symm h8, Ne.symm h16, Ne.symm h32]
    rw [IR.Width.holding, hnone]
    rfl

mutual

/-- What a type holds in the language has the shape that lowering gives it. -/
theorem held_eq_shape : (ty : Ty) → ty.held = ty.shape
  | .void | .param _ | .bool | .untypedBool | .float | .untypedFloat | .rawptr | .struct _ _ _
  | .structRef _ | .union _ _ _ | .rune | .int _ | .untypedInt _ | .string | .untypedString
  | .enum _ _ => rfl
  | .sizedInt signed bits => congrArg (IR.Ty.int signed) (holding_eq_machineWidth bits)
  | .sizedFloat bits => by
    unfold held shape
    split <;> simp_all
  | .pointer element _ | .buffer element _ => congrArg IR.Ty.ptr (held_eq_shape element)
  | .array element capacity _ => congrArg (IR.Ty.array · capacity) (held_eq_shape element)
  | .slice element _ => congrArg IR.Ty.slice (held_eq_shape element)
  | .function signature => congrArg IR.Ty.ptr (signatureHeld_eq_shape signature)

theorem signatureHeld_eq_shape : (signature : Signature) →
    signatureHeld signature = signatureShape signature
  | ⟨_, _, _, returnType, params, _⟩ => by
    unfold signatureHeld signatureShape
    rw [paramsHeld_eq_shapes params, held_eq_shape returnType]

theorem paramsHeld_eq_shapes : (params : List (String × Ty)) →
    paramsHeld params = paramShapes params
  | [] => rfl
  | (_, ty) :: params => by
    unfold paramsHeld paramShapes
    rw [held_eq_shape ty, paramsHeld_eq_shapes params]

end

end Ty

end Laye
