import Laye.Problem
import Laye.Syntax.Basic
import Laye.Type.Builtin

/-!
# Resolving written types

`TypeExpr.resolve` turns a written type into a type, given what the declared names mean. A struct
behind a pointer, buffer or slice is taken by name, without asking what it holds.
-/

namespace Laye

/-- What declared type names mean. -/
structure TypeNames where
  /-- Whether the name is that of a struct. -/
  isStruct : String → Bool
  /-- The type that a name stands for. -/
  resolve : Ident → Except Fault Ty

namespace TypeExpr

/-- The type of a built-in keyword. -/
def resolveBuiltin (keyword : String) (span : Span) : Except Fault Ty :=
  match Builtin.ofKeyword keyword with
  | .type ty => .ok ty
  | .unsupportedWidth keyword bits => .error ⟨span, .unsupportedWidth keyword bits⟩
  | .unknown => .error ⟨span, .unknownBuiltin keyword⟩

/-- Elements must have a value. -/
def nonVoid (element : TypeExpr) (ty : Ty) : Except Fault Ty :=
  if ty.isVoid then .error ⟨element.span, .voidElement⟩ else .ok ty

/-- The struct that a written type names, if it is a name of one. -/
def namedStruct? (names : TypeNames) : TypeExpr → Option String
  | .named ident => if names.isStruct ident.name then some ident.name else none
  | _ => none

/-- The type that a written type stands for. Of a struct behind indirection only the name is asked
for, never its fields, so structs may point to each other. -/
def resolve (names : TypeNames) : TypeExpr → Except Fault Ty
  | .builtin keyword span => resolveBuiltin keyword span
  | .named ident => names.resolve ident
  | .pointer element access _ => do
    let ty ← behind element fun _ => element.resolve names
    .ok (.pointerTo ty access)
  | .buffer element access _ => do
    let ty ← behind element fun _ => element.resolve names
    let ty ← nonVoid element ty
    .ok (.bufferOf ty access)
  | .slice element access _ => do
    let ty ← behind element fun _ => element.resolve names
    let ty ← nonVoid element ty
    .ok (.sliceOf ty access)
  | .array element capacity access span => do
    let ty ← element.resolve names
    let ty ← nonVoid element ty
    if capacity = 0 then .error ⟨span, .emptyArray⟩
    else .ok (.array ty capacity access)
where
  /-- An element behind indirection: a struct by name, or else what it resolves to. -/
  behind (element : TypeExpr) (resolved : Unit → Except Fault Ty) : Except Fault Ty :=
    match namedStruct? names element with
    | some name => .ok (.structRef name)
    | none => resolved ()

end TypeExpr

end Laye
