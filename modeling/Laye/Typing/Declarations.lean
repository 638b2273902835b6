import Laye.Typing.TypeNames
import Laye.Scope

/-!
# Declarations and their types

The declarations of a compilation unit, over all its files, share one scope. `declare` enters their
names, and `typeOf` gives the type of each one: a struct with the types of its fields, an enum with
the values of its variants, a function with its signature.

A struct embeds the types of its fields. One that is met again while its own fields are resolved
would contain itself, and is refused. Structs behind a pointer, buffer or slice are held by name
and are not met in this way.
-/

namespace Laye.Declarations

/-- The declarations of all files, in order. A declaration's place is the id of its symbol. -/
def ofTrees (trees : List SyntaxTree) : List TopLevel := trees.flatMap SyntaxTree.decls

/-- What kind of symbol a declaration makes. -/
def kind : TopLevel → SymbolKind
  | .function _ => .function
  | .struct _ => .struct
  | .enum _ => .enum

/-- Enters declarations into the scope, from the id `next` on. -/
def declareFrom (next : SymbolId) : List TopLevel → ScopeStack → Except Fault ScopeStack
  | [], scopes => .ok scopes
  | decl :: decls, scopes =>
    match scopes.add decl.name.name next with
    | some scopes => declareFrom (next + 1) decls scopes
    | none => .error ⟨decl.name.span, .duplicateDeclaration decl.name.name⟩

/-- The global scope of a compilation unit. -/
def declare (decls : List TopLevel) : Except Fault ScopeStack := declareFrom 0 decls .start

/-- The declaration of a name. -/
def find? (decls : List TopLevel) (name : String) : Option TopLevel :=
  decls.find? (·.name.name == name)

/-- Whether a name is declared as a struct. -/
def isStruct (decls : List TopLevel) (name : String) : Bool :=
  match find? decls name with
  | some (.struct _) => true
  | _ => false

/-! ### Structs -/

/-- The fields of a struct, after those in `done`. -/
def fieldTypes (names : TypeNames) (struct : String) :
    List Param → List (String × Ty) → Except Fault (List (String × Ty))
  | [], done => .ok done
  | field :: fields, done => do
    if done.any (·.1 == field.name.name) then
      .error ⟨field.name.span, .duplicateField field.name.name struct⟩
    let ty ← field.ty.resolve names
    if ty.isVoid then .error ⟨field.ty.span, .voidField field.name.name⟩
    fieldTypes names struct fields (done ++ [(field.name.name, ty)])

/-- The type of a struct. -/
def structType (names : TypeNames) (decl : StructDecl) : Except Fault Ty := do
  let fields ← fieldTypes names decl.name.name decl.fields []
  .ok (.struct decl.name.name [] fields)

/-! ### Enums -/

/-- The largest value of a variant. -/
def maxVariant : Nat := Nat.pow 2 64 - 1

/-- The variants of an enum, after those in `done`. A variant without a value is numbered `next`,
which is missing after the largest value. -/
def variantValues (enum : String) :
    List EnumVariant → Option Nat → List (String × Nat) → Except Fault (List (String × Nat))
  | [], _, done => .ok done
  | variant :: variants, next, done =>
    if done.any (·.1 == variant.name.name) then
      .error ⟨variant.name.span, .duplicateVariant variant.name.name enum⟩
    else
      match variant.value.or next with
      | none => .error ⟨variant.name.span, .variantOverflow variant.name.name⟩
      | some value =>
        variantValues enum variants (if value < maxVariant then some (value + 1) else none)
          (done ++ [(variant.name.name, value)])

/-- The type of an enum. Its first variant is numbered zero unless it says otherwise. -/
def enumType (decl : EnumDecl) : Except Fault Ty := do
  let variants ← variantValues decl.name.name decl.variants (some 0) []
  .ok (.enum decl.name.name variants)

/-! ### Functions -/

/-- The calling convention among a function's modifiers, given the one seen before them. -/
def conventionOf : List Modifier → Option CallingConvention →
    Except Fault (Option CallingConvention)
  | [], seen => .ok seen
  | .foreign _ _ :: modifiers, seen => conventionOf modifiers seen
  | .convention convention span :: modifiers, seen =>
    if seen.isSome then .error ⟨span, .duplicateConvention⟩
    else conventionOf modifiers (some convention)

/-- The library among a function's modifiers, given the one seen before them. -/
def libraryOf : List Modifier → Option String → Except Fault (Option String)
  | [], seen => .ok seen
  | .convention _ _ :: modifiers, seen => libraryOf modifiers seen
  | .foreign library span :: modifiers, seen =>
    if seen.isSome then .error ⟨span, .duplicateForeignModifier⟩
    else libraryOf modifiers (some library)

/-- The parameters of a function with their types. -/
def paramTypes (names : TypeNames) : List Param → Except Fault (List (String × Ty))
  | [] => .ok []
  | param :: params => do
    let ty ← param.ty.resolve names
    if ty.isVoid then .error ⟨param.ty.span, .voidParameter param.name.name⟩
    let rest ← paramTypes names params
    .ok ((param.name.name, ty) :: rest)

/-- The type of a function. -/
def functionType (names : TypeNames) (decl : FunctionDecl) : Except Fault Ty := do
  let convention ← conventionOf decl.modifiers none
  if decl.varArgs = .laye then .error ⟨decl.name.span, .layeVarArgs⟩
  let returnType ← decl.returnType.resolve names
  let params ← paramTypes names decl.params
  .ok (.function ⟨decl.name.name, [], convention.getD .layeNoContext, returnType, params,
    decl.varArgs⟩)

/-! ### All declarations -/

/-- The type that a name stands for, while the fields of the structs in `path` are being resolved.
At most `free` structs are not among them. -/
def named (decls : List TopLevel) : Nat → List String → Ident → Except Fault Ty
  | free, path, ident =>
    match find? decls ident.name with
    | none => .error ⟨ident.span, .unknownType ident.name⟩
    | some (.function _) => .error ⟨ident.span, .functionAsType ident.name⟩
    | some (.enum decl) => enumType decl
    | some (.struct decl) =>
      if ident.name ∈ path then .error ⟨decl.name.span, .recursiveType ident.name⟩
      else
        match free with
        | 0 => .error ⟨decl.name.span, .recursiveType ident.name⟩
        | free + 1 =>
          structType ⟨isStruct decls, named decls free (ident.name :: path)⟩ decl

/-- What type names mean between the declarations, inside the structs of `path`. -/
def namesInside (decls : List TopLevel) (path : List String) : TypeNames :=
  ⟨isStruct decls, named decls (decls.length - path.length) path⟩

/-- The type of a declaration. -/
def typeOf (decls : List TopLevel) : TopLevel → Except Fault Ty
  | .struct decl => structType (namesInside decls [decl.name.name]) decl
  | .enum decl => enumType decl
  | .function decl => functionType (namesInside decls []) decl

/-- The symbols of declarations, with their types. -/
def symbolsOf (decls : List TopLevel) : List TopLevel → Except Fault SymbolTable
  | [] => .ok []
  | decl :: rest => do
    let ty ← typeOf decls decl
    let symbols ← symbolsOf decls rest
    .ok (⟨decl.name.name, kind decl, decl.name.span, ty⟩ :: symbols)

/-- The symbols of a compilation unit's declarations. -/
def populate (decls : List TopLevel) : Except Fault SymbolTable := symbolsOf decls decls

end Laye.Declarations
