import Laye.Proofs.Typing.Rules

/-!
# Typed trees that say what a syntax tree says

`Typed.Program.Elaborates` relates the files of a unit to a typed program that says the same,
declaration for declaration, statement for statement and expression for expression, with the spans
of the source. It has a rule for each form of syntax, and the rules leave a typed tree these
liberties:

- a name is replaced by the id of a symbol that it stands for;
- casts and materializations may be put around an expression, with its span;
- the negations of a number literal become part of the literal;
- an integer literal may become the float of the same value;
- a field of a struct behind a pointer is reached by a dereference;
- a variant of an enum is replaced by its value;
- the statements of a block that follow one which always exits are put into one dead-code statement.

What a name stands for is left to a `Reading`. `Reading.byName` asks for no more than a symbol of
that name. `Reading.lexical` asks for the declaration that lexical scoping selects. It looks at the
`Surroundings` of the use, which hold the declarations before it, block by block. They are handed
down into a block and from a statement to the next, never out of a block.

`Stmt.Follows` is what is left of the rules for statements when it is open what a typed expression
has to do with the expression at the same place.
-/

namespace Laye

/-! ### What names stand for -/

/-- The variables declared before a point of a function. -/
structure Surroundings where
  /-- Those of each block around the point, the innermost block first. The body of an `if` or a
  `while` counts as a block. In a block the latest declaration comes first. -/
  blocks : List (List (String × SymbolId))
  /-- The parameters of the function, the last one first. -/
  params : List (String × SymbolId)

namespace Surroundings

/-- At the start of a function that has its parameters. -/
def ofParams (params : List Param) (ids : List SymbolId) : Surroundings :=
  ⟨[], ((params.map fun param => param.name.name).zip ids).reverse⟩

/-- At the start of a block. -/
def enter (s : Surroundings) : Surroundings := { s with blocks := [] :: s.blocks }

/-- After a declaration. -/
def declare (s : Surroundings) (name : String) (id : SymbolId) : Surroundings :=
  match s.blocks with
  | [] => { s with params := (name, id) :: s.params }
  | block :: outer => { s with blocks := ((name, id) :: block) :: outer }

/-- After a statement, given what it is elaborated to. Only a declaration makes a difference: what
is declared inside the statement is not seen after it. -/
def after (s : Surroundings) : Stmt → Typed.Stmt → Surroundings
  | .binding _ ident _ _, .binding id _ _ => s.declare ident.name id
  | _, _ => s

/-- The variable that a name stands for: the latest one of the name in the innermost block that has
one, or else the parameter. -/
def find? (s : Surroundings) (name : String) : Option SymbolId :=
  (s.blocks.findSome? fun block => block.lookup name).or (s.params.lookup name)

end Surroundings

/-- What symbols a name may stand for, by what surrounds it. -/
def Reading : Type := Surroundings → String → SymbolId → Prop

/-- A name stands for the variable that lexical scoping selects, or else for the declaration of the
name among those of the unit. -/
def Reading.lexical (tops : List TopLevel) : Reading := fun s name id =>
  (s.find? name).or (tops.findIdx? fun top => top.name.name == name) = some id

/-- A name stands for any symbol of that name. -/
def Reading.byName (symbols : SymbolTable) : Reading := fun _ name id => symbols.Named name id

namespace SymbolTable

/-- The symbol is a function of the name. -/
def IsFunctionOf (symbols : SymbolTable) (name : String) (id : SymbolId) : Prop :=
  ∃ symbol, symbols[id]? = some symbol ∧ symbol.name = name ∧ symbol.kind = .function

/-- The symbol is the variable that is declared here. -/
def IsVariableOf (symbols : SymbolTable) (ident : Ident) (id : SymbolId) : Prop :=
  ∃ ty, symbols[id]? = some ⟨ident.name, .binding, ident.span, ty⟩

end SymbolTable

/-! ### Expressions -/

namespace Expr

/-- The integer that a literal denotes after any number of negations, as magnitude and sign. -/
def integer? : Expr → Option (Nat × Bool)
  | .integer value _ _ => some (value, false)
  | .unary .neg operand _ =>
    operand.integer?.map fun (magnitude, negative) => (magnitude, !negative)
  | _ => none

/-- The float that a literal denotes after any number of negations. -/
def float? : Expr → Option Float
  | .float value _ => some value
  | .unary .neg operand _ => operand.float?.map fun value => -value
  | _ => none

end Expr

/-- The typed expression says what the expression says. -/
inductive Expr.Elaborates (symbols : SymbolTable) (refers : String → SymbolId → Prop) :
    Expr → Typed.Expr → Prop where
  | integer {e : Expr} {magnitude : Nat} {negative : Bool} (ty : Ty)
      (hliteral : e.integer? = some (magnitude, negative)) :
      Elaborates symbols refers e (.integer ty e.span magnitude negative)
  /-- An integer literal as the float of the same value. -/
  | integerAsFloat {e : Expr} {magnitude : Nat} {negative : Bool} {ty : Ty}
      (hty : ty.isUntyped = false) (hliteral : e.integer? = some (magnitude, negative)) :
      Elaborates symbols refers e
        (.float ty e.span (if negative then -Float.ofNat magnitude else Float.ofNat magnitude))
  | float {e : Expr} {value : Float} (ty : Ty) (hliteral : e.float? = some value) :
      Elaborates symbols refers e (.float ty e.span value)
  | bool (ty : Ty) (value : Bool) (span : Span) :
      Elaborates symbols refers (.bool value span) (.bool ty span value)
  | string (ty : Ty) (value : String) (span : Span) :
      Elaborates symbols refers (.string value span) (.string ty span value)
  /-- The name of a variable or of a function. -/
  | load {ident : Ident} {id : SymbolId} (ty : Ty) (hname : refers ident.name id)
      (hkind : (symbols.symbolAt id).kind.isType = false) :
      Elaborates symbols refers (.name ident) (.load ty ident.span id)
  | invoke {ident : Ident} {args : List Expr} {function : SymbolId} {args' : List Typed.Expr}
      (ty : Ty) (span : Span) (hcallee : symbols.IsFunctionOf ident.name function)
      (hargs : List.Forall₂ (Elaborates symbols refers) args args') :
      Elaborates symbols refers (.invoke (.name ident) args span) (.invoke ty span function args')
  /-- An operator that computes. A negation stays one only if there is no literal to take it in. -/
  | unary {operand : Expr} {operand' : Typed.Expr} (ty : Ty) (span : Span) (op : Typed.UnaryOp)
      (hliteral : op = .neg → operand.integer? = none ∧ operand.float? = none)
      (hoperand : Elaborates symbols refers operand operand') :
      Elaborates symbols refers (.unary op.written operand span) (.unary ty span op operand')
  | addressOf {operand : Expr} {operand' : Typed.Expr} (ty : Ty) (span : Span)
      (hoperand : Elaborates symbols refers operand operand') :
      Elaborates symbols refers (.unary .addressOf operand span) (.addressOf ty span operand')
  | dereference {operand : Expr} {operand' : Typed.Expr} (ty : Ty) (span : Span)
      (hoperand : Elaborates symbols refers operand operand') :
      Elaborates symbols refers (.unary .dereference operand span) (.dereference ty span operand')
  | binary {left right : Expr} {left' right' : Typed.Expr} (ty : Ty) (span : Span) (op : BinaryOp)
      (hleft : Elaborates symbols refers left left')
      (hright : Elaborates symbols refers right right') :
      Elaborates symbols refers (.binary op left right span) (.binary ty span op left' right')
  | index {target i : Expr} {target' i' : Typed.Expr} (ty : Ty) (span : Span)
      (htarget : Elaborates symbols refers target target') (hi : Elaborates symbols refers i i') :
      Elaborates symbols refers (.index target i span) (.index ty span target' i')
  | field {target : Expr} {target' : Typed.Expr} (ty : Ty) (ident : Ident) (span : Span)
      (place : Nat) (hdirect : ∀ struct access, target'.ty ≠ .pointer (.structRef struct) access)
      (htarget : Elaborates symbols refers target target') :
      Elaborates symbols refers (.field target ident span) (.field ty span target' ident.name place)
  /-- A field of a struct that is reached through a pointer. -/
  | fieldBehind {target : Expr} {target' : Typed.Expr} {struct : String} {access : Access} (ty : Ty)
      (ident : Ident) (span : Span) (place : Nat) (expanded : Ty)
      (hpointer : target'.ty = .pointer (.structRef struct) access)
      (htarget : Elaborates symbols refers target target') :
      Elaborates symbols refers (.field target ident span)
        (.field ty span (.dereference expanded target.span target') ident.name place)
  /-- A variant of an enum. Before its name stands that of the enum, or of a variable of its type,
  whose value plays no part. -/
  | variant {enum : Ident} {id : SymbolId} {name : String} {variants : List (String × Nat)}
      {ident : Ident} {value : Nat} (span : Span) (hname : refers enum.name id)
      (henum : (symbols.symbolAt id).ty = .enum name variants)
      (hvalue : variants.lookup ident.name = some value) :
      Elaborates symbols refers (.field (.name enum) ident span)
        (.integer (.enum name variants) span value false)
  | cast {e : Expr} {inner : Typed.Expr} (ty : Ty) (hinner : Elaborates symbols refers e inner) :
      Elaborates symbols refers e (.cast ty e.span inner)
  | materialize {e : Expr} {inner : Typed.Expr} (ty : Ty)
      (hinner : Elaborates symbols refers e inner) :
      Elaborates symbols refers e (.materialize ty e.span inner)

/-! ### Statements -/

section

variable (symbols : SymbolTable) (R : Surroundings → Expr → Typed.Expr → Prop)

mutual

/-- The typed statement has the form of the statement, and `R` relates the expressions at the same
places of the two. -/
inductive Stmt.Follows : Surroundings → Stmt → Typed.Stmt → Prop where
  | block {s stmts stmts'} (span : Span) (hstmts : Stmt.BlockFollows s.enter stmts stmts') :
      Stmt.Follows s (.block stmts span) (.block stmts' span)
  /-- The value does not see the variable. -/
  | binding {s ident id value value'} (ty : Option TypeExpr) (span : Span)
      (hsymbol : symbols.IsVariableOf ident id) (hvalue : Option.Rel (R s) value value') :
      Stmt.Follows s (.binding ty ident value span) (.binding id value' span)
  | expression {s value value'} (hvalue : R s value value') :
      Stmt.Follows s (.expression value) (.expression value')
  | ret {s value value'} (span : Span) (hvalue : Option.Rel (R s) value value') :
      Stmt.Follows s (.ret value span) (.ret value' span)
  | assign {s target target' value value'} (span : Span) (htarget : R s target target')
      (hvalue : R s value value') :
      Stmt.Follows s (.assign target value span) (.assign target' value' span)
  | conditional {s condition condition' body body' elseBody elseBody'} (span : Span)
      (hcondition : R s condition condition') (hbody : Stmt.Follows s.enter body body')
      (helse : Stmt.ElseFollows s elseBody elseBody') :
      Stmt.Follows s (.conditional condition body elseBody span)
        (.conditional condition' body' elseBody' span)
  | whileLoop {s condition condition' body body' elseBody elseBody'} (span : Span)
      (hcondition : R s condition condition') (hbody : Stmt.Follows s.enter body body')
      (helse : Stmt.ElseFollows s elseBody elseBody') :
      Stmt.Follows s (.whileLoop condition body elseBody span)
        (.whileLoop condition' body' elseBody' span)
  | breakLoop {s} (span : Span) : Stmt.Follows s (.breakLoop span) (.breakLoop span)
  | continueLoop {s} (span : Span) : Stmt.Follows s (.continueLoop span) (.continueLoop span)
  | yield {s value value'} (span : Span) (hvalue : Option.Rel (R s) value value') :
      Stmt.Follows s (.yield value span) (.yield value' span)

/-- The same for the statements of a block. Those after one that always exits are in one dead-code
statement, but otherwise like any other statements of the block. -/
inductive Stmt.BlockFollows : Surroundings → List Stmt → List Typed.Stmt → Prop where
  | nil {s} : Stmt.BlockFollows s [] []
  | cons {s stmt stmt' rest rest'} (hstmt : Stmt.Follows s stmt stmt')
      (hopen : stmt'.alwaysExits = false)
      (hrest : Stmt.BlockFollows (s.after stmt stmt') rest rest') :
      Stmt.BlockFollows s (stmt :: rest) (stmt' :: rest')
  | last {s stmt stmt'} (hstmt : Stmt.Follows s stmt stmt') (hexits : stmt'.alwaysExits = true) :
      Stmt.BlockFollows s [stmt] [stmt']
  | dead {s stmt stmt' rest rest' span} (hstmt : Stmt.Follows s stmt stmt')
      (hexits : stmt'.alwaysExits = true) (hspan : Typing.stretch? rest = some span)
      (hrest : Stmt.AllFollow (s.after stmt stmt') rest rest') :
      Stmt.BlockFollows s (stmt :: rest) [stmt', .deadCode rest' span]

/-- The same for statements one for one. -/
inductive Stmt.AllFollow : Surroundings → List Stmt → List Typed.Stmt → Prop where
  | nil {s} : Stmt.AllFollow s [] []
  | cons {s stmt stmt' rest rest'} (hstmt : Stmt.Follows s stmt stmt')
      (hrest : Stmt.AllFollow (s.after stmt stmt') rest rest') :
      Stmt.AllFollow s (stmt :: rest) (stmt' :: rest')

/-- The same for an `else` body, which may be missing. -/
inductive Stmt.ElseFollows : Surroundings → Option Stmt → Option Typed.Stmt → Prop where
  | none {s} : Stmt.ElseFollows s none none
  | some {s stmt stmt'} (hstmt : Stmt.Follows s.enter stmt stmt') :
      Stmt.ElseFollows s (some stmt) (some stmt')

end

/-- The same for the body of a function. -/
def FunctionBody.Follows (s : Surroundings) : FunctionBody → Typed.Body → Prop
  | .empty _, .empty => True
  | .block stmts span, .block stmts' span' =>
    span' = span ∧ Stmt.BlockFollows symbols R s.enter stmts stmts'
  | .expression value, .expression value' => R s value value'
  | _, _ => False

end

/-- The typed statement says what the statement says, in these surroundings. -/
abbrev Stmt.Elaborates (symbols : SymbolTable) (reading : Reading) :
    Surroundings → Stmt → Typed.Stmt → Prop :=
  Stmt.Follows symbols fun s => Expr.Elaborates symbols (reading s)

/-- The typed body says what the body says. -/
abbrev FunctionBody.Elaborates (symbols : SymbolTable) (reading : Reading) :
    Surroundings → FunctionBody → Typed.Body → Prop :=
  FunctionBody.Follows symbols fun s => Expr.Elaborates symbols (reading s)

/-! ### Declarations -/

/-- The typed function says what the declared one says. Its parameters are variables of the names
that are written, and the body sees them. -/
structure FunctionDecl.Elaborates (symbols : SymbolTable) (reading : Reading) (decl : FunctionDecl)
    (f : Typed.Function) : Prop where
  symbol : symbols.IsFunctionOf decl.name.name f.symbol
  name_eq : f.name = decl.name.name
  nameSpan_eq : f.nameSpan = decl.name.span
  span_eq : f.span = decl.span
  params : List.Forall₂ (fun param id => symbols.IsVariableOf param.name id) decl.params f.params
  body : decl.body.Elaborates symbols reading (.ofParams decl.params f.params) f.body

/-- The typed declaration says what the declaration says. -/
def TopLevel.Elaborates (symbols : SymbolTable) (reading : Reading) : TopLevel → Typed.Decl → Prop
  | .function decl, .function f => decl.Elaborates symbols reading f
  | .struct decl, .struct id span => symbols.Named decl.name.name id ∧ span = decl.span
  | .enum decl, .enum id span => symbols.Named decl.name.name id ∧ span = decl.span
  | _, _ => False

/-- The typed file says what the file says. -/
structure SyntaxTree.Elaborates (symbols : SymbolTable) (reading : Reading) (tree : SyntaxTree)
    (root : Typed.Root) : Prop where
  sourceName_eq : root.sourceName = tree.sourceName
  decls : List.Forall₂ (TopLevel.Elaborates symbols reading) tree.decls root.decls

/-- The program says what its files say. -/
def Typed.Program.Elaborates (p : Typed.Program) (reading : Reading) (trees : List SyntaxTree) :
    Prop :=
  List.Forall₂ (SyntaxTree.Elaborates p.symbols reading) trees p.roots

end Laye
