import Laye.Syntax.Basic

/-!
# Syntax without spans

Short forms for trees whose nodes come from no file, as they are needed to write one down by hand.
-/

namespace Laye.Plain

/-- A name. -/
def ident (name : String) : Ident := ⟨name, .nowhere⟩

/-! ### Types -/

/-- A built-in type. -/
def keyword (word : String) : TypeExpr := .builtin word .nowhere

/-- A declared type. -/
def named (name : String) : TypeExpr := .named (ident name)

/-- A pointer that may be written through. -/
def pointer (element : TypeExpr) : TypeExpr := .pointer element .readWrite .nowhere

/-- An array whose elements may be written. -/
def array (element : TypeExpr) (capacity : Nat) : TypeExpr :=
  .array element capacity .readWrite .nowhere

/-! ### Expressions -/

/-- A name as a value. -/
def name (name : String) : Expr := .name (ident name)

/-- An integer literal. -/
def number (value : Nat) : Expr := .integer value true .nowhere

/-- What a pointer points to. -/
def target (pointer : Expr) : Expr := .unary .dereference pointer .nowhere

/-- A field or a variant. -/
def field (target : Expr) (name : String) : Expr := .field target (ident name) .nowhere

/-- An element. -/
def element (target : Expr) (i : Nat) : Expr := .index target (number i) .nowhere

/-! ### Statements -/

/-- A variable of a written type. -/
def binding (ty : TypeExpr) (name : String) (value : Expr) : Stmt :=
  .binding (some ty) (ident name) (some value) .nowhere

/-- An assignment. -/
def assign (target value : Expr) : Stmt := .assign target value .nowhere

/-- A value that is returned. -/
def ret (value : Expr) : Stmt := .ret (some value) .nowhere

/-! ### Declarations -/

/-- A parameter or a field. -/
def param (ty : TypeExpr) (name : String) : Param := ⟨ty, ident name, .nowhere⟩

/-- A struct. -/
def struct (name : String) (fields : List Param) : TopLevel :=
  .struct ⟨ident name, fields, .nowhere⟩

/-- An enum. -/
def enum (name : String) (variants : List (String × Option Nat)) : TopLevel :=
  .enum ⟨ident name, variants.map fun (name, value) => ⟨ident name, value⟩, .nowhere⟩

/-- A function with a body. -/
def function (returnType : TypeExpr) (name : String) (params : List Param) (body : List Stmt) :
    TopLevel :=
  .function ⟨[], returnType, ident name, params, .none, .block body .nowhere, .nowhere⟩

end Laye.Plain
