import Laye.Source
import Laye.Type.Equality

/-!
# Symbols

What names stand for. The symbols of a compilation are kept in a `SymbolTable`, to which symbols
are only ever added, and a `SymbolId` is a place in it. The symbols of the top-level declarations
come first, in the order of the declarations.
-/

namespace Laye

/-- The place of a symbol in its table. -/
abbrev SymbolId : Type := Nat

/-- What a symbol is. -/
inductive SymbolKind where
  /-- A local variable or a parameter. -/
  | binding
  | function
  | struct
  | enum
deriving DecidableEq, Repr, Inhabited

/-- Whether the symbol names a type. -/
def SymbolKind.isType : SymbolKind → Bool
  | .struct | .enum => true
  | .binding | .function => false

/-- A name with what it stands for. -/
structure Symbol where
  name : String
  kind : SymbolKind
  span : Span
  ty : Ty
deriving DecidableEq, Inhabited

/-- The function type of a symbol that names a function. -/
def Symbol.signature? (s : Symbol) : Option Signature :=
  match s.kind, s.ty with
  | .function, .function signature => some signature
  | _, _ => none

/-- The symbols of a compilation. -/
abbrev SymbolTable : Type := List Symbol

namespace SymbolTable

/-- The symbol at a place. Beyond the table there is a binding without name and type. -/
def symbolAt (t : SymbolTable) (id : SymbolId) : Symbol := t.getD id default

end SymbolTable

/-- How a place in the table is shown. -/
def SymbolId.text (id : SymbolId) : String := "#" ++ toString id

end Laye
