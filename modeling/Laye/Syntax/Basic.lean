import Laye.Source
import Laye.Syntax.Operator
import Laye.Type.Basic

/-!
# Syntax trees

What a source file says, before anything is known about types and names. Every node carries the
span it was read from. A tree is a list of declarations: functions, structs and enums.
-/

namespace Laye

/-- A name in the source. -/
structure Ident where
  name : String
  span : Span
deriving DecidableEq, Repr, Inhabited

/-- A written type. -/
inductive TypeExpr where
  | builtin (keyword : String) (span : Span)
  | named (name : Ident)
  | pointer (element : TypeExpr) (access : Access) (span : Span)
  | buffer (element : TypeExpr) (access : Access) (span : Span)
  | slice (element : TypeExpr) (access : Access) (span : Span)
  | array (element : TypeExpr) (capacity : Nat) (access : Access) (span : Span)
deriving DecidableEq, Repr, Inhabited

/-- Where the type is written. -/
def TypeExpr.span : TypeExpr → Span
  | .named name => name.span
  | .builtin _ span | .pointer _ _ span | .buffer _ _ span | .slice _ _ span
  | .array _ _ _ span => span

/-- A written expression. -/
inductive Expr where
  | integer (value : Nat) (signed : Bool) (span : Span)
  | float (value : Float) (span : Span)
  | bool (value : Bool) (span : Span)
  | string (value : String) (span : Span)
  | name (ident : Ident)
  | invoke (target : Expr) (args : List Expr) (span : Span)
  | unary (op : UnaryOp) (operand : Expr) (span : Span)
  | binary (op : BinaryOp) (left right : Expr) (span : Span)
  | index (target index : Expr) (span : Span)
  | field (target : Expr) (name : Ident) (span : Span)
deriving Inhabited

/-- Where the expression is written. -/
def Expr.span : Expr → Span
  | .name ident => ident.span
  | .integer _ _ span | .float _ span | .bool _ span | .string _ span | .invoke _ _ span
  | .unary _ _ span | .binary _ _ _ span | .index _ _ span | .field _ _ span => span

/-- A written statement. -/
inductive Stmt where
  | block (stmts : List Stmt) (span : Span)
  | binding (ty : Option TypeExpr) (name : Ident) (value : Option Expr) (span : Span)
  | expression (value : Expr)
  | ret (value : Option Expr) (span : Span)
  | assign (target value : Expr) (span : Span)
  | conditional (condition : Expr) (thenBody : Stmt) (elseBody : Option Stmt) (span : Span)
  | whileLoop (condition : Expr) (body : Stmt) (elseBody : Option Stmt) (span : Span)
  | breakLoop (span : Span)
  | continueLoop (span : Span)
  | yield (value : Option Expr) (span : Span)
deriving Inhabited

/-- Where the statement is written. -/
def Stmt.span : Stmt → Span
  | .expression value => value.span
  | .block _ span | .binding _ _ _ span | .ret _ span | .assign _ _ span
  | .conditional _ _ _ span | .whileLoop _ _ _ span | .breakLoop span | .continueLoop span
  | .yield _ span => span

/-- A name with a type: a parameter of a function or a field of a struct. -/
structure Param where
  ty : TypeExpr
  name : Ident
  span : Span
deriving DecidableEq, Repr, Inhabited

/-- A modifier of a function declaration. -/
inductive Modifier where
  | foreign (library : String) (span : Span)
  | convention (convention : CallingConvention) (span : Span)
deriving DecidableEq, Repr, Inhabited

/-- The body of a function declaration. -/
inductive FunctionBody where
  /-- A declaration only. -/
  | empty (span : Span)
  | block (stmts : List Stmt) (span : Span)
  | expression (value : Expr)
deriving Inhabited

/-- A declared function. -/
structure FunctionDecl where
  modifiers : List Modifier
  returnType : TypeExpr
  name : Ident
  params : List Param
  varArgs : VarArgs
  body : FunctionBody
  span : Span
deriving Inhabited

/-- A declared struct. -/
structure StructDecl where
  name : Ident
  fields : List Param
  span : Span
deriving Inhabited

/-- A variant of an enum, with the value it is given if any. -/
structure EnumVariant where
  name : Ident
  value : Option Nat
deriving DecidableEq, Repr, Inhabited

/-- A declared enum. -/
structure EnumDecl where
  name : Ident
  variants : List EnumVariant
  span : Span
deriving Inhabited

/-- A declaration of a source file. -/
inductive TopLevel where
  | function (decl : FunctionDecl)
  | struct (decl : StructDecl)
  | enum (decl : EnumDecl)
deriving Inhabited

/-- The declared name. -/
def TopLevel.name : TopLevel → Ident
  | .function decl => decl.name
  | .struct decl => decl.name
  | .enum decl => decl.name

/-- The declarations of one source file. -/
structure SyntaxTree where
  sourceName : String
  decls : List TopLevel
deriving Inhabited

end Laye
