import Laye.Interchange.Span
import Laye.Json.Printer
import Laye.Syntax.Basic

/-!
# Syntax trees as JSON

The form in which a parser hands a tree over. An alternative is an object with its name as the only
key, or the bare name when it has no payload; a record is an object or an array of its fields.
`SyntaxTree.parse` reads a tree and `SyntaxTree.render` writes one.

Types, expressions and statements hold smaller ones. Their decoders are given as the shape of one
level, over the decoder for the levels below it.
-/

namespace Laye

open Decoder (variant enumeration)
open Record (field optional)

/-! ### Names of plain alternatives -/

namespace Access

/-- The name of an access. -/
def name : Access → String
  | .readWrite => "ReadWrite"
  | .readOnly => "ReadOnly"
  | .writeOnly => "WriteOnly"
  | .constant => "Constant"

/-- Reads an access. -/
def decoder : Decoder Access := enumeration [.readWrite, .readOnly, .writeOnly, .constant] name

end Access

namespace CallingConvention

/-- The name of a convention. -/
def name : CallingConvention → String
  | .laye => "Laye"
  | .layeNoContext => "LayeNoContext"
  | .cdecl => "CDecl"
  | .stdcall => "StdCall"
  | .fastcall => "FastCall"

/-- All conventions. -/
def all : List CallingConvention := [.laye, .layeNoContext, .cdecl, .stdcall, .fastcall]

/-- Reads a convention. -/
def decoder : Decoder CallingConvention := enumeration all name

end CallingConvention

namespace VarArgs

/-- The name of a kind of surplus arguments. -/
def name : VarArgs → String
  | .none => "None"
  | .laye => "Laye"
  | .c => "C"

/-- Reads a kind of surplus arguments. -/
def decoder : Decoder VarArgs := enumeration [.none, .laye, .c] name

end VarArgs

namespace UnaryOp

/-- The name of a unary operator. -/
def name : UnaryOp → String
  | .neg => "Neg"
  | .not => "Not"
  | .bitNot => "BitNot"
  | .addressOf => "AddressOf"
  | .dereference => "Dereference"

/-- Reads a unary operator. -/
def decoder : Decoder UnaryOp := enumeration [.neg, .not, .bitNot, .addressOf, .dereference] name

end UnaryOp

namespace BinaryOp

/-- The name of a binary operator. -/
def name : BinaryOp → String
  | .add => "Add"
  | .sub => "Sub"
  | .mul => "Mul"
  | .div => "Div"
  | .mod => "Mod"
  | .bitAnd => "BitAnd"
  | .bitOr => "BitOr"
  | .bitXor => "BitXor"
  | .shl => "Shl"
  | .shr => "Shr"
  | .eq => "Eq"
  | .ne => "Ne"
  | .lt => "Lt"
  | .le => "Le"
  | .gt => "Gt"
  | .ge => "Ge"
  | .logicalAnd => "LogicalAnd"
  | .logicalOr => "LogicalOr"

/-- All binary operators. -/
def all : List BinaryOp :=
  [.add, .sub, .mul, .div, .mod, .bitAnd, .bitOr, .bitXor, .shl, .shr, .eq, .ne, .lt, .le, .gt,
    .ge, .logicalAnd, .logicalOr]

/-- Reads a binary operator. -/
def decoder : Decoder BinaryOp := enumeration all name

end BinaryOp

/-! ### Names and types -/

namespace Ident

/-- A name as JSON. -/
def toJson (i : Ident) : Json := .object [("name", .string i.name), ("span", i.span.toJson)]

/-- Reads a name. -/
def decoder : Decoder Ident :=
  ((field "name" .string).and Span.record).map (fun (name, span) => ⟨name, span⟩) |>.decoder

end Ident

namespace TypeExpr

/-- A written type as JSON. -/
def toJson : TypeExpr → Json
  | .builtin keyword span =>
    .tagged "Builtin" (.object [("keyword", .string keyword), ("span", span.toJson)])
  | .named name => .tagged "Named" name.toJson
  | .pointer element access span => .tagged "Pointer" (container element.toJson access span)
  | .buffer element access span => .tagged "Buffer" (container element.toJson access span)
  | .slice element access span => .tagged "Slice" (container element.toJson access span)
  | .array element capacity access span =>
    .tagged "Array" (.object
      [("element", element.toJson), ("capacity", .nat capacity),
        ("access", .string access.name), ("span", span.toJson)])
where
  /-- The fields of a container without a capacity. -/
  container (element : Json) (access : Access) (span : Span) : Json :=
    .object [("element", element), ("access", .string access.name), ("span", span.toJson)]

/-- Reads one level of a written type. -/
def shape (self : Decoder TypeExpr) : Decoder TypeExpr := variant
  [("Builtin", .payload <|
      ((field "keyword" .string).and Span.record).decoder.map fun (keyword, span) =>
        .builtin keyword span),
    ("Named", .payload <| Ident.decoder.map .named),
    ("Pointer", .payload <| container.decoder.map fun (element, access, span) =>
      .pointer element access span),
    ("Buffer", .payload <| container.decoder.map fun (element, access, span) =>
      .buffer element access span),
    ("Slice", .payload <| container.decoder.map fun (element, access, span) =>
      .slice element access span),
    ("Array", .payload <|
      ((field "element" self).and <| (field "capacity" .word64).and <|
        (field "access" Access.decoder).and Span.record).decoder.map
      fun (element, capacity, access, span) => .array element capacity access span)]
where
  /-- The fields of a container without a capacity. -/
  container : Record (TypeExpr × Access × Span) :=
    (field "element" self).and <| (field "access" Access.decoder).and Span.record

/-- Reads a written type. -/
def decoder : Decoder TypeExpr := .nested shape

end TypeExpr

/-! ### Expressions -/

namespace Expr

mutual

/-- An expression as JSON. -/
def toJson : Expr → Json
  | .integer value signed span =>
    .tagged "Integer" (.object
      [("value", .nat value), ("signed", .bool signed), ("span", span.toJson)])
  | .float value span =>
    .tagged "Float" (.object [("value", .float value), ("span", span.toJson)])
  | .bool value span => .tagged "Bool" (.object [("value", .bool value), ("span", span.toJson)])
  | .string value span =>
    .tagged "String" (.object [("value", .string value), ("span", span.toJson)])
  | .name ident => .tagged "Name" ident.toJson
  | .invoke target args span =>
    .tagged "Invoke" (.object
      [("target", target.toJson), ("args", .array (listToJson args)), ("span", span.toJson)])
  | .unary op operand span =>
    .tagged "Unary" (.object
      [("op", .string op.name), ("operand", operand.toJson), ("span", span.toJson)])
  | .binary op left right span =>
    .tagged "Binary" (.object
      [("op", .string op.name), ("left", left.toJson), ("right", right.toJson),
        ("span", span.toJson)])
  | .index target place span =>
    .tagged "Index" (.object
      [("target", target.toJson), ("index", place.toJson), ("span", span.toJson)])
  | .field target ident span =>
    .tagged "Field" (.object
      [("target", target.toJson), ("field", ident.toJson), ("span", span.toJson)])

/-- Expressions as JSON. -/
def listToJson : List Expr → List Json
  | [] => []
  | e :: es => e.toJson :: listToJson es

end

/-- Reads one level of an expression. -/
def shape (self : Decoder Expr) : Decoder Expr := variant
  [("Integer", .payload <|
      ((Record.field "value" .word64).and <| (Record.field "signed" .bool).and
        Span.record).decoder.map fun (value, signed, span) => .integer value signed span),
    ("Float", .payload <|
      ((Record.field "value" .float).and Span.record).decoder.map fun (value, span) =>
        .float value span),
    ("Bool", .payload <|
      ((Record.field "value" .bool).and Span.record).decoder.map fun (value, span) =>
        .bool value span),
    ("String", .payload <|
      ((Record.field "value" .string).and Span.record).decoder.map fun (value, span) =>
        .string value span),
    ("Name", .payload <| Ident.decoder.map .name),
    ("Invoke", .payload <|
      ((Record.field "target" self).and <| (Record.field "args" self.list).and
        Span.record).decoder.map fun (target, args, span) => .invoke target args span),
    ("Unary", .payload <|
      ((Record.field "op" UnaryOp.decoder).and <| (Record.field "operand" self).and
        Span.record).decoder.map fun (op, operand, span) => .unary op operand span),
    ("Binary", .payload <|
      ((Record.field "op" BinaryOp.decoder).and <| (Record.field "left" self).and <|
        (Record.field "right" self).and Span.record).decoder.map
      fun (op, left, right, span) => .binary op left right span),
    ("Index", .payload <|
      ((Record.field "target" self).and <| (Record.field "index" self).and
        Span.record).decoder.map fun (target, place, span) => .index target place span),
    ("Field", .payload <|
      ((Record.field "target" self).and <| (Record.field "field" Ident.decoder).and
        Span.record).decoder.map fun (target, ident, span) => .field target ident span)]

/-- Reads an expression. -/
def decoder : Decoder Expr := .nested shape

end Expr

/-! ### Statements -/

namespace Stmt

/-- A block as JSON. -/
def blockToJson (stmts : List Json) (span : Span) : Json :=
  .object [("stmts", .array stmts), ("span", span.toJson)]

mutual

/-- A statement as JSON. -/
def toJson : Stmt → Json
  | .block stmts span => .tagged "Block" (blockToJson (listToJson stmts) span)
  | .binding ty name value span =>
    .tagged "Binding" (.object
      [("ty", .option TypeExpr.toJson ty), ("name", name.toJson),
        ("value", .option Expr.toJson value), ("span", span.toJson)])
  | .expression value => .tagged "Expression" value.toJson
  | .ret value span =>
    .tagged "Return" (.object [("value", .option Expr.toJson value), ("span", span.toJson)])
  | .assign target value span =>
    .tagged "Assign" (.object
      [("target", target.toJson), ("value", value.toJson), ("span", span.toJson)])
  | .conditional condition thenBody elseBody span =>
    .tagged "If" (.object
      [("condition", condition.toJson), ("then_body", thenBody.toJson),
        ("else_body", optionToJson elseBody), ("span", span.toJson)])
  | .whileLoop condition body elseBody span =>
    .tagged "While" (.object
      [("condition", condition.toJson), ("body", body.toJson),
        ("else_body", optionToJson elseBody), ("span", span.toJson)])
  | .breakLoop span => .tagged "Break" (.object [("span", span.toJson)])
  | .continueLoop span => .tagged "Continue" (.object [("span", span.toJson)])
  | .yield value span =>
    .tagged "Yield" (.object [("value", .option Expr.toJson value), ("span", span.toJson)])

/-- Statements as JSON. -/
def listToJson : List Stmt → List Json
  | [] => []
  | s :: ss => s.toJson :: listToJson ss

/-- A statement that may be missing as JSON. -/
def optionToJson : Option Stmt → Json
  | none => .null
  | some s => s.toJson

end

/-- The fields of a block. -/
def blockRecord (self : Decoder Stmt) : Record (List Stmt × Span) :=
  (field "stmts" self.list).and Span.record

/-- Reads one level of a statement. -/
def shape (self : Decoder Stmt) : Decoder Stmt := variant
  [("Block", .payload <| (blockRecord self).decoder.map fun (stmts, span) => .block stmts span),
    ("Binding", .payload <|
      ((optional "ty" TypeExpr.decoder).and <| (field "name" Ident.decoder).and <|
        (optional "value" Expr.decoder).and Span.record).decoder.map
      fun (ty, name, value, span) => .binding ty name value span),
    ("Expression", .payload <| Expr.decoder.map .expression),
    ("Return", .payload <|
      ((optional "value" Expr.decoder).and Span.record).decoder.map fun (value, span) =>
        .ret value span),
    ("Assign", .payload <|
      ((field "target" Expr.decoder).and <| (field "value" Expr.decoder).and
        Span.record).decoder.map fun (target, value, span) => .assign target value span),
    ("If", .payload <|
      ((field "condition" Expr.decoder).and <| (field "then_body" self).and <|
        (optional "else_body" self).and Span.record).decoder.map
      fun (condition, thenBody, elseBody, span) => .conditional condition thenBody elseBody span),
    ("While", .payload <|
      ((field "condition" Expr.decoder).and <| (field "body" self).and <|
        (optional "else_body" self).and Span.record).decoder.map
      fun (condition, body, elseBody, span) => .whileLoop condition body elseBody span),
    ("Break", .payload <| Span.record.decoder.map .breakLoop),
    ("Continue", .payload <| Span.record.decoder.map .continueLoop),
    ("Yield", .payload <|
      ((optional "value" Expr.decoder).and Span.record).decoder.map fun (value, span) =>
        .yield value span)]

/-- Reads a statement. -/
def decoder : Decoder Stmt := .nested shape

end Stmt

/-! ### Declarations -/

namespace Param

/-- A parameter or field as JSON. -/
def toJson (p : Param) : Json :=
  .object [("ty", p.ty.toJson), ("name", p.name.toJson), ("span", p.span.toJson)]

/-- Reads a parameter or field. -/
def decoder : Decoder Param :=
  ((field "ty" TypeExpr.decoder).and <| (field "name" Ident.decoder).and Span.record).decoder.map
    fun (ty, name, span) => ⟨ty, name, span⟩

end Param

namespace Modifier

/-- A modifier as JSON. -/
def toJson : Modifier → Json
  | .foreign library span =>
    .tagged "Extern" (.object [("library", .string library), ("span", span.toJson)])
  | .convention c span =>
    .tagged "CallingConvention" (.object
      [("convention", .string c.name), ("span", span.toJson)])

/-- Reads a modifier. -/
def decoder : Decoder Modifier := variant
  [("Extern", .payload <|
      ((field "library" .string).and Span.record).decoder.map fun (library, span) =>
        .foreign library span),
    ("CallingConvention", .payload <|
      ((field "convention" CallingConvention.decoder).and Span.record).decoder.map
      fun (c, span) => .convention c span)]

end Modifier

namespace FunctionBody

/-- A function's body as JSON. -/
def toJson : FunctionBody → Json
  | .empty span => .tagged "Empty" span.toJson
  | .block stmts span => .tagged "Block" (Stmt.blockToJson (Stmt.listToJson stmts) span)
  | .expression value => .tagged "Expression" value.toJson

/-- Reads a function's body. -/
def decoder : Decoder FunctionBody := variant
  [("Empty", .payload <| Span.decoder.map .empty),
    ("Block", .payload <| (Stmt.blockRecord Stmt.decoder).decoder.map fun (stmts, span) =>
      .block stmts span),
    ("Expression", .payload <| Expr.decoder.map .expression)]

end FunctionBody

namespace FunctionDecl

/-- A declared function as JSON. -/
def toJson (d : FunctionDecl) : Json :=
  .object
    [("modifiers", .array (d.modifiers.map Modifier.toJson)),
      ("return_type", d.returnType.toJson), ("name", d.name.toJson),
      ("params", .array (d.params.map Param.toJson)), ("var_args", .string d.varArgs.name),
      ("body", d.body.toJson), ("span", d.span.toJson)]

/-- Reads a declared function. -/
def decoder : Decoder FunctionDecl :=
  ((field "modifiers" Modifier.decoder.list).and <|
    (field "return_type" TypeExpr.decoder).and <|
    (field "name" Ident.decoder).and <|
    (field "params" Param.decoder.list).and <|
    (field "var_args" VarArgs.decoder).and <|
    (field "body" FunctionBody.decoder).and Span.record).decoder.map
  fun (modifiers, returnType, name, params, varArgs, body, span) =>
    ⟨modifiers, returnType, name, params, varArgs, body, span⟩

end FunctionDecl

namespace StructDecl

/-- A declared struct as JSON. -/
def toJson (d : StructDecl) : Json :=
  .object
    [("name", d.name.toJson), ("fields", .array (d.fields.map Param.toJson)),
      ("span", d.span.toJson)]

/-- Reads a declared struct. -/
def decoder : Decoder StructDecl :=
  ((field "name" Ident.decoder).and <| (field "fields" Param.decoder.list).and
    Span.record).decoder.map fun (name, fields, span) => ⟨name, fields, span⟩

end StructDecl

namespace EnumVariant

/-- A variant as JSON. -/
def toJson (v : EnumVariant) : Json :=
  .object [("name", v.name.toJson), ("value", .option .nat v.value)]

/-- Reads a variant. -/
def decoder : Decoder EnumVariant :=
  ((field "name" Ident.decoder).and (optional "value" .word64)).decoder.map
    fun (name, value) => ⟨name, value⟩

end EnumVariant

namespace EnumDecl

/-- A declared enum as JSON. -/
def toJson (d : EnumDecl) : Json :=
  .object
    [("name", d.name.toJson), ("variants", .array (d.variants.map EnumVariant.toJson)),
      ("span", d.span.toJson)]

/-- Reads a declared enum. -/
def decoder : Decoder EnumDecl :=
  ((field "name" Ident.decoder).and <| (field "variants" EnumVariant.decoder.list).and
    Span.record).decoder.map fun (name, variants, span) => ⟨name, variants, span⟩

end EnumDecl

namespace TopLevel

/-- A declaration as JSON. -/
def toJson : TopLevel → Json
  | .function decl => .tagged "Function" decl.toJson
  | .struct decl => .tagged "Struct" decl.toJson
  | .enum decl => .tagged "Enum" decl.toJson

/-- Reads a declaration. -/
def decoder : Decoder TopLevel := variant
  [("Function", .payload <| FunctionDecl.decoder.map .function),
    ("Struct", .payload <| StructDecl.decoder.map .struct),
    ("Enum", .payload <| EnumDecl.decoder.map .enum)]

end TopLevel

namespace SyntaxTree

/-- A tree as JSON. -/
def toJson (t : SyntaxTree) : Json :=
  .object
    [("source_name", .string t.sourceName), ("decls", .array (t.decls.map TopLevel.toJson))]

/-- Reads a tree. -/
def decoder : Decoder SyntaxTree :=
  ((field "source_name" .string).and (field "decls" TopLevel.decoder.list)).decoder.map
    fun (sourceName, decls) => ⟨sourceName, decls⟩

/-- Reads a tree from its text. -/
def parse (text : String) : Except DecodeError SyntaxTree := decoder.run text

/-- The text of a tree. -/
def render (t : SyntaxTree) : String := t.toJson.compact

/-- Whether the text of the tree reads back as a tree with the same text. -/
def survivesText (t : SyntaxTree) : Bool :=
  match parse t.render with
  | .ok u => u.render == t.render
  | .error _ => false

end SyntaxTree

end Laye
