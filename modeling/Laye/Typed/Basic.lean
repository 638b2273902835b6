import Laye.Symbol
import Laye.Syntax.Operator

/-!
# Typed trees

What checking makes of a syntax tree: each expression carries its type, names are replaced by the
symbols they stand for, and conversions are nodes of their own.
-/

namespace Laye.Typed

/-- An operator with one operand that computes a value. -/
inductive UnaryOp where
  | neg
  | not
  | bitNot
deriving DecidableEq, Repr, Inhabited

/-- An expression with its type and the span it comes from. -/
inductive Expr where
  /-- An integer literal, as sign and magnitude. -/
  | integer (ty : Ty) (span : Span) (magnitude : Nat) (negative : Bool)
  | float (ty : Ty) (span : Span) (value : Float)
  | bool (ty : Ty) (span : Span) (value : Bool)
  | string (ty : Ty) (span : Span) (value : String)
  /-- The value of a binding, or a function as a value. -/
  | load (ty : Ty) (span : Span) (symbol : SymbolId)
  /-- The inner value as a value of this node's type. -/
  | cast (ty : Ty) (span : Span) (inner : Expr)
  /-- An owned string with the bytes of the inner slice. -/
  | materialize (ty : Ty) (span : Span) (inner : Expr)
  | invoke (ty : Ty) (span : Span) (function : SymbolId) (args : List Expr)
  | unary (ty : Ty) (span : Span) (op : UnaryOp) (operand : Expr)
  | binary (ty : Ty) (span : Span) (op : BinaryOp) (left right : Expr)
  | addressOf (ty : Ty) (span : Span) (inner : Expr)
  | dereference (ty : Ty) (span : Span) (inner : Expr)
  | index (ty : Ty) (span : Span) (target index : Expr)
  /-- A field of a struct, by its name and its place among the fields. -/
  | field (ty : Ty) (span : Span) (target : Expr) (name : String) (place : Nat)
deriving Inhabited

namespace Expr

/-- The type of an expression. -/
def ty : Expr → Ty
  | .integer ty _ _ _ | .float ty _ _ | .bool ty _ _ | .string ty _ _ | .load ty _ _
  | .cast ty _ _ | .materialize ty _ _ | .invoke ty _ _ _ | .unary ty _ _ _
  | .binary ty _ _ _ _ | .addressOf ty _ _ | .dereference ty _ _ | .index ty _ _ _
  | .field ty _ _ _ _ => ty

/-- The span an expression comes from. -/
def span : Expr → Span
  | .integer _ span _ _ | .float _ span _ | .bool _ span _ | .string _ span _ | .load _ span _
  | .cast _ span _ | .materialize _ span _ | .invoke _ span _ _ | .unary _ span _ _
  | .binary _ span _ _ _ | .addressOf _ span _ | .dereference _ span _ | .index _ span _ _
  | .field _ span _ _ _ => span

/-- The same expression at another type. -/
def retype (ty : Ty) : Expr → Expr
  | .integer _ span magnitude negative => .integer ty span magnitude negative
  | .float _ span value => .float ty span value
  | .bool _ span value => .bool ty span value
  | .string _ span value => .string ty span value
  | .load _ span symbol => .load ty span symbol
  | .cast _ span inner => .cast ty span inner
  | .materialize _ span inner => .materialize ty span inner
  | .invoke _ span function args => .invoke ty span function args
  | .unary _ span op operand => .unary ty span op operand
  | .binary _ span op left right => .binary ty span op left right
  | .addressOf _ span inner => .addressOf ty span inner
  | .dereference _ span inner => .dereference ty span inner
  | .index _ span target i => .index ty span target i
  | .field _ span target name place => .field ty span target name place

/-- The expression converted to a type. -/
def castTo (e : Expr) (ty : Ty) : Expr := .cast ty e.span e

/-- The expression as an owned value of a type. -/
def materializeTo (e : Expr) (ty : Ty) : Expr := .materialize ty e.span e

/-- Whether the expression names a place in memory, given which symbols are bindings. An element
of an array is a place if the array is; behind a pointer there always is one. -/
def isPlace (isBinding : SymbolId → Bool) : Expr → Bool
  | .load _ _ symbol => isBinding symbol
  | .dereference _ _ _ => true
  | .index _ _ target _ =>
    match target.ty with
    | .array _ _ _ => target.isPlace isBinding
    | _ => true
  | .field _ _ target _ _ => target.isPlace isBinding
  | _ => false

mutual

/-- Whether some node of the expression still has the type of an untyped literal. -/
def containsUntyped : Expr → Bool
  | .integer ty _ _ _ | .float ty _ _ | .bool ty _ _ | .string ty _ _ | .load ty _ _ =>
    ty.isUntyped
  | .cast ty _ inner | .materialize ty _ inner | .addressOf ty _ inner
  | .dereference ty _ inner | .unary ty _ _ inner | .field ty _ inner _ _ =>
    ty.isUntyped || inner.containsUntyped
  | .invoke ty _ _ args => ty.isUntyped || anyContainsUntyped args
  | .binary ty _ _ left right | .index ty _ left right =>
    ty.isUntyped || left.containsUntyped || right.containsUntyped

/-- Whether some expression of the list contains an untyped node. -/
def anyContainsUntyped : List Expr → Bool
  | [] => false
  | e :: es => e.containsUntyped || anyContainsUntyped es

end

end Expr

/-- A statement. -/
inductive Stmt where
  | block (stmts : List Stmt) (span : Span)
  | binding (symbol : SymbolId) (value : Option Expr) (span : Span)
  | expression (value : Expr)
  | ret (value : Option Expr) (span : Span)
  | assign (target value : Expr) (span : Span)
  | conditional (condition : Expr) (thenBody : Stmt) (elseBody : Option Stmt) (span : Span)
  | whileLoop (condition : Expr) (body : Stmt) (elseBody : Option Stmt) (span : Span)
  | breakLoop (span : Span)
  | continueLoop (span : Span)
  | yield (value : Option Expr) (span : Span)
  /-- Statements that can never run. -/
  | deadCode (stmts : List Stmt) (span : Span)
deriving Inhabited

namespace Stmt

/-- The span a statement comes from. -/
def span : Stmt → Span
  | .expression value => value.span
  | .block _ span | .binding _ _ span | .ret _ span | .assign _ _ span
  | .conditional _ _ _ span | .whileLoop _ _ _ span | .breakLoop span | .continueLoop span
  | .yield _ span | .deadCode _ span => span

mutual

/-- Whether control can never flow past the statement. -/
def alwaysExits : Stmt → Bool
  | .ret _ _ | .breakLoop _ | .continueLoop _ | .yield _ _ => true
  | .block stmts _ => someAlwaysExits stmts
  | .conditional _ thenBody (some elseBody) _ => thenBody.alwaysExits && elseBody.alwaysExits
  | _ => false

/-- Whether control can never flow past some statement of the list. -/
def someAlwaysExits : List Stmt → Bool
  | [] => false
  | s :: ss => s.alwaysExits || someAlwaysExits ss

end

/-- Whether an expression that may be missing contains an untyped node. -/
def optionContainsUntyped : Option Expr → Bool
  | none => false
  | some e => e.containsUntyped

mutual

/-- Whether some expression of the statement contains an untyped node. -/
def containsUntyped : Stmt → Bool
  | .block stmts _ | .deadCode stmts _ => anyContainsUntyped stmts
  | .binding _ value _ | .ret value _ | .yield value _ => optionContainsUntyped value
  | .expression value => value.containsUntyped
  | .assign target value _ => target.containsUntyped || value.containsUntyped
  | .conditional condition thenBody none _ | .whileLoop condition thenBody none _ =>
    condition.containsUntyped || thenBody.containsUntyped
  | .conditional condition thenBody (some elseBody) _
  | .whileLoop condition thenBody (some elseBody) _ =>
    condition.containsUntyped || thenBody.containsUntyped || elseBody.containsUntyped
  | .breakLoop _ | .continueLoop _ => false

/-- Whether some statement of the list contains an untyped node. -/
def anyContainsUntyped : List Stmt → Bool
  | [] => false
  | s :: ss => s.containsUntyped || anyContainsUntyped ss

end

end Stmt

/-- The body of a function. -/
inductive Body where
  /-- The function is declared only. -/
  | empty
  | block (stmts : List Stmt) (span : Span)
  | expression (value : Expr)
deriving Inhabited

/-- Whether the body contains an untyped node. -/
def Body.containsUntyped : Body → Bool
  | .empty => false
  | .block stmts _ => Stmt.anyContainsUntyped stmts
  | .expression value => value.containsUntyped

/-- A checked function. -/
structure Function where
  symbol : SymbolId
  name : String
  nameSpan : Span
  /-- The bindings of the parameters, in order. -/
  params : List SymbolId
  /-- The library that a foreign function comes from. -/
  library : Option String
  body : Body
  span : Span
deriving Inhabited

/-- A checked declaration. -/
inductive Decl where
  | struct (symbol : SymbolId) (span : Span)
  | enum (symbol : SymbolId) (span : Span)
  | function (function : Function)
deriving Inhabited

/-- The function a declaration declares. -/
def Decl.function? : Decl → Option Function
  | .function f => some f
  | _ => none

/-- The checked declarations of one source file. -/
structure Root where
  sourceName : String
  decls : List Decl
deriving Inhabited

namespace Root

/-- The functions of a file, in order. -/
def functions (r : Root) : List Function := r.decls.filterMap Decl.function?

/-- Whether an untyped node is left in some function. -/
def containsUntyped (r : Root) : Bool := r.functions.any (·.body.containsUntyped)

end Root

/-- A checked compilation unit: its files and all its symbols. -/
structure Program where
  roots : List Root
  symbols : SymbolTable
deriving Inhabited

/-- The declarations of all files, in order. -/
def Program.decls (p : Program) : List Decl := p.roots.flatMap Root.decls

end Laye.Typed
