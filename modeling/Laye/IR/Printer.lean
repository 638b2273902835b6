import Laye.Decimal.Display
import Laye.IR.Basic
import Laye.Text.Quoted

/-!
# Listings of the intermediate representation

The text of a module: a head, the structs and external functions, then each function with its
blocks, one instruction a line.
-/

namespace Laye.IR

/-- The text of a constant. -/
def Constant.text : Constant → String
  | .int value => toString value
  | .float value => floatText value
  | .bool true => "true"
  | .bool false => "false"
  | .string value => Text.quoted value

/-- The text of a value. -/
def Value.text : Value → String
  | .register r => r.text
  | .constant c => c.text
  | .param place => "arg" ++ toString place
  | .global name => "@" ++ name
  | .unit => "()"

/-- The word for an operation on two values. -/
def BinaryOp.text : BinaryOp → String
  | .add => "add"
  | .sub => "sub"
  | .mul => "mul"
  | .div => "div"
  | .mod => "mod"
  | .eq => "eq"
  | .ne => "ne"
  | .lt => "lt"
  | .le => "le"
  | .gt => "gt"
  | .ge => "ge"
  | .and => "and"
  | .or => "or"
  | .xor => "xor"
  | .shl => "shl"
  | .shr => "shr"

/-- The word for an operation on one value. -/
def UnaryOp.text : UnaryOp → String
  | .neg => "neg"
  | .not => "not"
  | .bitNot => "bitnot"

/-- The text of an instruction. -/
def Instruction.text : Instruction → String
  | .alloca dest ty => dest.text ++ " = alloca " ++ ty.text
  | .load dest ptr ty => dest.text ++ " = load " ++ ty.text ++ ", " ++ ptr.text
  | .store ptr value => "store " ++ value.text ++ ", " ++ ptr.text
  | .binary dest op left right ty =>
    dest.text ++ " = " ++ op.text ++ " " ++ ty.text ++ " " ++ left.text ++ ", " ++ right.text
  | .unary dest op value => dest.text ++ " = " ++ op.text ++ " " ++ value.text
  | .call dest function args =>
    (match dest with
      | some dest => dest.text ++ " = "
      | none => "") ++
      "call " ++ function ++ "(" ++ ", ".intercalate (args.map Value.text) ++ ")"
  | .cast dest value source target =>
    dest.text ++ " = cast " ++ source.text ++ " " ++ value.text ++ " to " ++ target.text
  | .materialize dest value ty => dest.text ++ " = materialize " ++ ty.text ++ " " ++ value.text
  | .sliceData dest value => dest.text ++ " = slicedata " ++ value.text
  | .element dest ptr index ty =>
    dest.text ++ " = gep " ++ ty.text ++ ", " ++ ptr.text ++ ", " ++ index.text
  | .field dest ptr struct place =>
    dest.text ++ " = fieldptr %" ++ struct ++ ", " ++ ptr.text ++ ", " ++ toString place

/-- The text of a terminator. -/
def Terminator.text : Terminator → String
  | .ret (some value) => "ret " ++ value.text
  | .ret none => "ret void"
  | .jump target => "br " ++ target.text
  | .branch condition thenTarget elseTarget =>
    "br " ++ condition.text ++ ", " ++ thenTarget.text ++ ", " ++ elseTarget.text
  | .unreachable => "unreachable"

/-- A line of code inside a block. -/
def codeLine (code : String) : String := "    " ++ code ++ "\n"

/-- The text of a block. -/
def Block.text (b : Block) : String :=
  "  " ++ b.id.text ++ "." ++ b.label ++ ":\n" ++
    String.join (b.instructions.map fun i => codeLine i.text) ++
    (match b.terminator with
      | some t => codeLine t.text
      | none => "")

/-- Names with their types. -/
def paramsText (params : List (String × Ty)) : String :=
  ", ".intercalate (params.map fun (name, ty) => name ++ ": " ++ ty.text)

/-- The word for a calling convention, with a blank after it. -/
def conventionText : CallingConvention → String
  | .laye => ""
  | .layeNoContext => "nocontext "
  | .cdecl => "cdecl "
  | .stdcall => "stdcall "
  | .fastcall => "fastcall "

/-- The text of a function. -/
def Function.text (f : Function) : String :=
  conventionText f.convention ++ "fn " ++ f.name ++ "(" ++ paramsText f.params ++ ") -> " ++
    f.ret.text ++ " \x7b\n" ++ String.join (f.blocks.map Block.text) ++ "\x7d\n"

/-- The text of an external function. -/
def External.text (e : External) : String :=
  "extern " ++
    (match e.library with
      | some library => Text.quoted library ++ " "
      | none => "") ++
    conventionText e.convention ++ "fn " ++ e.name ++ "(" ++ paramsText e.params ++
    (if e.varArgs = .c then (if e.params.isEmpty then "..." else ", ...") else "") ++
    ") -> " ++ e.ret.text ++ "\n"

/-- The text of a struct. -/
def Struct.text (s : Struct) : String :=
  "struct %" ++ s.name ++ " \x7b " ++ paramsText s.fields ++ " \x7d\n"

/-- The text of a module. -/
def Module.text (m : Module) : String :=
  "; Module: " ++ m.name ++ "\n; Functions: " ++ toString m.functions.length ++ "\n\n" ++
    String.join (m.structs.map Struct.text) ++ String.join (m.externals.map External.text) ++
    (if m.structs.isEmpty && m.externals.isEmpty then "" else "\n") ++
    String.join (m.functions.map fun f => f.text ++ "\n")

/-- The name of this form of output. -/
def listingName : String := "ir-printer"

/-- The machine that a listing is for. -/
def listingTarget : String := "laye-ir"

end Laye.IR
