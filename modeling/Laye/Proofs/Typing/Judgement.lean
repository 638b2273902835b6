import Laye.Typing.Expression
import Mathlib.Data.List.Forall2

/-!
# Well-typed programs

What it means for a typed tree to be well typed, stated without reference to how it was made:
`Typed.Expr.WellTyped` and `Typed.Stmt.WellTyped` have a rule for each form of expression and
statement, over the symbols of the program alone. `Typed.Function.WellTyped` puts them together for
a function with its parameters and its return type.

No type of a well-typed expression is that of an untyped literal: see `Ty.Grounded` and
`Typed.Expr.WellTyped.grounded`.
-/

namespace Laye

/-! ### Types -/

mutual

/-- No type of an untyped literal occurs in the type, and the structs it names are structs. -/
def Ty.Grounded (isStruct : String → Prop) : Ty → Prop
  | .untypedInt _ | .untypedFloat | .untypedBool | .untypedString => False
  | .array element _ _ | .pointer element _ | .buffer element _ | .slice element _ =>
    element.Grounded isStruct
  | .function signature => signature.Grounded isStruct
  | .structRef name => isStruct name
  | .struct name _ fields => isStruct name ∧ Ty.FieldsGrounded isStruct fields
  | .union _ _ variants => Ty.FieldsGrounded isStruct variants
  | _ => True

def Signature.Grounded (isStruct : String → Prop) : Signature → Prop
  | ⟨_, _, _, returnType, params, _⟩ =>
    returnType.Grounded isStruct ∧ Ty.FieldsGrounded isStruct params

def Ty.FieldsGrounded (isStruct : String → Prop) : List (String × Ty) → Prop
  | [] => True
  | (_, ty) :: fields => ty.Grounded isStruct ∧ Ty.FieldsGrounded isStruct fields

end

/-- Whether values of the type are made of other values. -/
def Ty.isAggregate : Ty → Bool
  | .struct _ _ _ | .array _ _ _ => true
  | _ => false

/-- What an argument may be that no parameter stands for. -/
structure Ty.Promoted (ty : Ty) : Prop where
  integer : ∀ signed bits, ty = .sizedInt signed bits → 32 ≤ bits
  float : ∀ bits, ty = .sizedFloat bits → 64 ≤ bits
  value : ty ≠ .void

/-- Which conversions a cast makes. -/
inductive Ty.CastsTo : Ty → Ty → Prop where
  /-- A sized integer to the platform's. -/
  | platform (signed : Bool) (bits : Nat) (other : Bool) :
      CastsTo (.sizedInt signed bits) (.int other)
  | wider (signed : Bool) (bits : Nat) (other : Bool) {width : Nat} (h : bits < width) :
      CastsTo (.sizedInt signed bits) (.sizedInt other width)
  | integerToFloat {ty : Ty} (h : ty.isInteger = true) : CastsTo ty .float
  | float (bits : Nat) : CastsTo (.sizedFloat bits) .float
  | double {bits : Nat} (h : bits < 64) : CastsTo (.sizedFloat bits) .f64
  | address : CastsTo (.int false) .rawptr
  | rawptrToBuffer (element : Ty) (access : Access) : CastsTo .rawptr (.buffer element access)
  | bufferToRawptr (element : Ty) : CastsTo (.buffer element .readWrite) .rawptr
  /-- What may be read and written may be given away with any access. -/
  | pointer (element : Ty) (access : Access) :
      CastsTo (.pointer element .readWrite) (.pointer element access)
  | buffer (element : Ty) (access : Access) :
      CastsTo (.buffer element .readWrite) (.buffer element access)
  | slice (element : Ty) (access : Access) :
      CastsTo (.slice element .readWrite) (.slice element access)

/-- The operands that an operator with one operand takes. -/
def Typed.UnaryOp.Accepts : Typed.UnaryOp → Ty → Prop
  | .not, ty => ty = .bool
  | .bitNot, ty => ty.isInteger = true
  | .neg, ty => ty = .int true ∨ (∃ bits, ty = .sizedInt true bits) ∨ ty = .float ∨
      ∃ bits, ty = .sizedFloat bits

/-- The operands that an operator with two operands takes, by the type of the left one. -/
def BinaryOp.Accepts (op : BinaryOp) (ty : Ty) : Prop :=
  match op with
  | .logicalAnd | .logicalOr => ty = .bool
  | .eq | .ne => ty.isAggregate = false
  | .lt | .le | .gt | .ge => ty.isInteger = true ∨ ty.isFloatLike = true ∨ ty = .rune
  | .add | .sub | .mul | .div | .mod => ty.isInteger = true ∨ ty.isFloatLike = true
  | .bitAnd | .bitOr | .bitXor | .shl | .shr => ty.isInteger = true

/-- The type that an operator with two operands gives, by the type of the left one. -/
def BinaryOp.resultType (op : BinaryOp) (ty : Ty) : Ty :=
  if op.isLogical || op.isComparison then .bool else ty

/-! ### Symbols -/

namespace SymbolTable

/-- The struct of a name. -/
def structType? (symbols : SymbolTable) (name : String) : Option Ty :=
  (symbols.find? fun s => s.kind = .struct ∧ s.name = name).map Symbol.ty

/-- Whether there is a struct of a name. -/
def IsStruct (symbols : SymbolTable) (name : String) : Prop :=
  (symbols.structType? name).isSome = true

/-- The struct that a reference by name stands for; other types stand for themselves. -/
def expand (symbols : SymbolTable) : Ty → Ty
  | .structRef name => (symbols.structType? name).getD (.structRef name)
  | ty => ty

/-- The type of the elements of a container. -/
def elementType? (symbols : SymbolTable) : Ty → Option Ty
  | .array element _ _ | .buffer element _ | .slice element _ => some (symbols.expand element)
  | .string => some .u8
  | _ => none

/-- Whether a symbol is a variable. -/
def isBinding (symbols : SymbolTable) (id : SymbolId) : Bool :=
  (symbols.symbolAt id).kind = .binding

/-- There is a symbol of this name at the place. -/
def Named (symbols : SymbolTable) (name : String) (id : SymbolId) : Prop :=
  ∃ symbol, symbols[id]? = some symbol ∧ symbol.name = name

/-- No symbol has a type that is not settled. -/
def Grounded (symbols : SymbolTable) : Prop :=
  ∀ symbol ∈ symbols, symbol.ty.Grounded symbols.IsStruct

end SymbolTable

/-! ### Expressions -/

namespace Typed.Expr

/-- Two integer literals of the platform's two integer types. -/
inductive MixedLiterals : Expr → Expr → Prop where
  | mk (signed : Bool) (span span' : Span) (magnitude magnitude' : Nat)
      (negative negative' : Bool) :
      MixedLiterals (.integer (.int signed) span magnitude negative)
        (.integer (.int !signed) span' magnitude' negative')

/-- The arguments of a call of a function. -/
structure Arguments (signature : Signature) (args : List Expr) : Prop where
  count : signature.varArgs ≠ .c → args.length = signature.params.length
  /-- The leading arguments have the types of the parameters. -/
  leading : (args.map ty).take signature.params.length = signature.paramTypes
  /-- The arguments beyond are of types that C passes as they are. -/
  surplus : ∀ arg ∈ args.drop signature.params.length, arg.ty.Promoted

/-- The expression is well typed over the symbols of a program. -/
inductive WellTyped (symbols : SymbolTable) : Expr → Prop where
  | integer {ty : Ty} (span : Span) (magnitude : Nat) (negative : Bool)
      (hty : ty.isInteger = true) : WellTyped symbols (.integer ty span magnitude negative)
  /-- The value of a variant of an enum. -/
  | variant {enum name : String} {variants : List (String × Nat)} {value : Nat} (span : Span)
      (henum : ∃ symbol ∈ symbols, symbol.ty = .enum enum variants)
      (hvalue : variants.lookup name = some value) :
      WellTyped symbols (.integer (.enum enum variants) span value false)
  | float {ty : Ty} (span : Span) (value : Float)
      (hty : ty = .float ∨ ∃ bits, ty = .sizedFloat bits) : WellTyped symbols (.float ty span value)
  | bool (span : Span) (value : Bool) : WellTyped symbols (.bool .bool span value)
  | string {ty : Ty} (span : Span) (value : String) (hty : ty = .string ∨ ty = .cString) :
      WellTyped symbols (.string ty span value)
  | load {symbol : Symbol} {id : SymbolId} (span : Span) (hsymbol : symbols[id]? = some symbol)
      (hkind : symbol.kind = .binding ∨ symbol.kind = .function) :
      WellTyped symbols (.load symbol.ty span id)
  | cast {ty : Ty} {inner : Expr} (span : Span) (hinner : WellTyped symbols inner)
      (hcast : inner.ty.CastsTo ty) (hty : ty.Grounded symbols.IsStruct) :
      WellTyped symbols (.cast ty span inner)
  | materialize {access : Access} {inner : Expr} (span : Span) (hinner : WellTyped symbols inner)
      (hslice : inner.ty = .slice .u8 access) : WellTyped symbols (.materialize .string span inner)
  | invoke {symbol : Symbol} {signature : Signature} {function : SymbolId} {args : List Expr}
      (span : Span) (hsymbol : symbols[function]? = some symbol)
      (hsignature : symbol.signature? = some signature)
      (hargs : ∀ arg ∈ args, WellTyped symbols arg) (hmatch : Arguments signature args) :
      WellTyped symbols (.invoke signature.returnType span function args)
  | unary {op : UnaryOp} {operand : Expr} (span : Span) (hoperand : WellTyped symbols operand)
      (haccepts : op.Accepts operand.ty) : WellTyped symbols (.unary operand.ty span op operand)
  | binary {op : BinaryOp} {left right : Expr} (span : Span) (hleft : WellTyped symbols left)
      (hright : WellTyped symbols right)
      (hsame : left.ty = right.ty ∨ op.isLogical = false ∧ MixedLiterals left right)
      (haccepts : op.Accepts left.ty) :
      WellTyped symbols (.binary (op.resultType left.ty) span op left right)
  /-- The address of a place, which allows no more than the container that the place lies in. -/
  | addressOf {inner : Expr} (span : Span) (hinner : WellTyped symbols inner)
      (hplace : inner.isPlace symbols.isBinding = true) :
      WellTyped symbols (.addressOf (.pointerTo inner.ty inner.addressAccess) span inner)
  | dereference {element : Ty} {access : Access} {inner : Expr} (span : Span)
      (hinner : WellTyped symbols inner) (hpointer : inner.ty = .pointer element access) :
      WellTyped symbols (.dereference (symbols.expand element) span inner)
  | index {element : Ty} {target i : Expr} (span : Span) (htarget : WellTyped symbols target)
      (hi : WellTyped symbols i) (helement : symbols.elementType? target.ty = some element)
      (hinteger : i.ty.isInteger = true) : WellTyped symbols (.index element span target i)
  | field {struct name : String} {typeParams : List TypeParam}
      {fields : List (String × Ty)} {ty : Ty}
      {place : Nat} {target : Expr} (span : Span) (htarget : WellTyped symbols target)
      (hstruct : target.ty = .struct struct typeParams fields)
      (hfield : fields[place]? = some (name, ty)) (hname : fields.lookup name = some ty) :
      WellTyped symbols (.field ty span target name place)

end Typed.Expr

/-! ### The types of well-typed expressions are settled -/

variable {isStruct : String → Prop} {signature : Signature} {fields : List (String × Ty)}

theorem Signature.grounded_iff :
    signature.Grounded isStruct ↔
      signature.returnType.Grounded isStruct ∧ Ty.FieldsGrounded isStruct signature.params := by
  cases signature
  rfl

theorem Ty.grounded_of_isInteger {ty : Ty} (h : ty.isInteger = true) : ty.Grounded isStruct := by
  cases ty with
  | int _ | sizedInt _ _ => trivial
  | _ => cases h

theorem Ty.Grounded.isUntyped {ty : Ty} (h : ty.Grounded isStruct) : ty.isUntyped = false := by
  cases ty with
  | untypedInt _ | untypedFloat | untypedBool | untypedString => exact h.elim
  | _ => rfl

theorem Ty.Grounded.indirect {ty : Ty} (h : ty.Grounded isStruct) :
    ty.indirect.Grounded isStruct := by
  cases ty with
  | struct _ _ _ => exact h.1
  | _ => exact h

theorem Ty.FieldsGrounded.of_mem (h : Ty.FieldsGrounded isStruct fields) {field : String × Ty}
    (hmem : field ∈ fields) : field.2.Grounded isStruct := by
  induction fields with
  | nil => cases hmem
  | cons _ _ ih =>
    rcases List.mem_cons.mp hmem with rfl | hmem
    · exact h.1
    · exact ih h.2 hmem

theorem Ty.fieldsGrounded_of_forall (h : ∀ field ∈ fields, field.2.Grounded isStruct) :
    Ty.FieldsGrounded isStruct fields := by
  induction fields with
  | nil => trivial
  | cons first _ ih => exact ⟨h first (by simp), ih fun field hmem => h field (by simp [hmem])⟩

theorem Symbol.grounded_of_signature? {symbol : Symbol} (h : symbol.signature? = some signature)
    (hty : symbol.ty.Grounded isStruct) : signature.Grounded isStruct := by
  unfold Symbol.signature? at h
  split at h
  · rename_i heq
    rw [heq] at hty
    exact Option.some.inj h ▸ hty
  · cases h

namespace SymbolTable

variable {symbols : SymbolTable}

variable {symbol : Symbol}

theorem symbolAt_eq {id : SymbolId} (h : symbols[id]? = some symbol) :
    symbols.symbolAt id = symbol := by
  simp [symbolAt, List.getD_eq_getElem?_getD, h]

theorem isBinding_of_getElem? {id : SymbolId} (h : symbols[id]? = some symbol)
    (hkind : symbol.kind = .binding) : symbols.isBinding id = true := by
  simp [isBinding, symbolAt_eq h, hkind]

theorem isStruct_of_mem (hmem : symbol ∈ symbols) (hkind : symbol.kind = .struct) :
    symbols.IsStruct symbol.name := by
  simp only [IsStruct, structType?, Option.isSome_map, List.find?_isSome]
  exact ⟨symbol, hmem, by simp [hkind]⟩

theorem expand_of_forall {P : Ty → Prop} (h : ∀ symbol ∈ symbols, P symbol.ty) {ty : Ty}
    (hty : P ty) : P (symbols.expand ty) := by
  cases ty with
  | structRef name =>
    simp only [SymbolTable.expand]
    cases hstruct : symbols.structType? name with
    | none => exact hty
    | some _ =>
      obtain ⟨symbol, hfind, rfl⟩ := Option.map_eq_some_iff.mp hstruct
      exact h symbol (List.mem_of_find?_eq_some hfind)
  | _ => exact hty

theorem Grounded.expand (h : symbols.Grounded) {ty : Ty} (hty : ty.Grounded symbols.IsStruct) :
    (symbols.expand ty).Grounded symbols.IsStruct :=
  expand_of_forall h hty

theorem Grounded.elementType? (h : symbols.Grounded) {ty element : Ty}
    (hty : ty.Grounded symbols.IsStruct) (helement : symbols.elementType? ty = some element) :
    element.Grounded symbols.IsStruct := by
  cases ty with
  | array inner _ _ | buffer inner _ | slice _ _ =>
    cases helement
    exact h.expand hty
  | string =>
    cases helement
    trivial
  | _ => cases helement

end SymbolTable

/-- The type of a well-typed expression is settled. -/
theorem Typed.Expr.WellTyped.grounded {symbols : SymbolTable} {e : Typed.Expr}
    (hsymbols : symbols.Grounded) (h : e.WellTyped symbols) : e.ty.Grounded symbols.IsStruct := by
  induction h with
  | integer _ _ _ hty => exact Ty.grounded_of_isInteger hty
  | variant | bool | materialize => trivial
  | float _ _ hty => rcases hty with rfl | ⟨_, rfl⟩ <;> trivial
  | string _ _ hty => rcases hty with rfl | rfl <;> trivial
  | load _ hsymbol _ => exact hsymbols _ (List.mem_of_getElem? hsymbol)
  | cast _ _ _ hty => exact hty
  | invoke _ hsymbol hsignature _ _ _ =>
    exact (Signature.grounded_iff.mp (Symbol.grounded_of_signature? hsignature
      (hsymbols _ (List.mem_of_getElem? hsymbol)))).1
  | unary _ _ _ ih => exact ih
  | @binary _ _ _ _ _ _ _ _ ihleft _ =>
    simp only [Typed.Expr.ty, BinaryOp.resultType]
    split
    · trivial
    · exact ihleft
  | addressOf _ _ _ ih => exact ih.indirect
  | dereference _ _ hpointer ih =>
    rw [hpointer] at ih
    exact hsymbols.expand ih
  | index _ _ _ helement _ ih _ => exact hsymbols.elementType? ih helement
  | field _ _ hstruct hfield _ ih =>
    rw [hstruct] at ih
    exact ih.2.of_mem (List.mem_of_getElem? hfield)

/-! ### Statements and functions -/

namespace Typed

/-- The value that a `return` gives fits the return type. -/
def Expr.Returns (symbols : SymbolTable) (returnType : Ty) : Option Expr → Prop
  | none => returnType = .void
  | some value => returnType ≠ .void ∧ value.WellTyped symbols ∧ value.ty = returnType

/-- The statement is well typed in a function that returns `returnType`, inside a loop or not. Dead
code is no exception. -/
inductive Stmt.WellTyped (symbols : SymbolTable) (returnType : Ty) : Bool → Stmt → Prop where
  | block {inLoop : Bool} {stmts : List Stmt} (span : Span)
      (hstmts : ∀ stmt ∈ stmts, WellTyped symbols returnType inLoop stmt) :
      WellTyped symbols returnType inLoop (.block stmts span)
  | binding {inLoop : Bool} {symbol : Symbol} {id : SymbolId} {value : Option Expr} (span : Span)
      (hsymbol : symbols[id]? = some symbol) (hkind : symbol.kind = .binding)
      (hvoid : symbol.ty ≠ .void)
      (hvalue : ∀ e, value = some e → e.WellTyped symbols ∧ e.ty = symbol.ty) :
      WellTyped symbols returnType inLoop (.binding id value span)
  | expression {inLoop : Bool} {value : Expr} (hvalue : value.WellTyped symbols) :
      WellTyped symbols returnType inLoop (.expression value)
  | ret {inLoop : Bool} {value : Option Expr} (span : Span)
      (hvalue : Expr.Returns symbols returnType value) :
      WellTyped symbols returnType inLoop (.ret value span)
  | assign {inLoop : Bool} {target value : Expr} (span : Span) (htarget : target.WellTyped symbols)
      (hplace : target.isPlace symbols.isBinding = true) (hwrite : target.readOnlyContainer? = none)
      (hvalue : value.WellTyped symbols) (hsame : value.ty = target.ty) :
      WellTyped symbols returnType inLoop (.assign target value span)
  | conditional {inLoop : Bool} {condition : Expr} {thenBody : Stmt} {elseBody : Option Stmt}
      (span : Span) (hcondition : condition.WellTyped symbols) (hbool : condition.ty = .bool)
      (hthen : WellTyped symbols returnType inLoop thenBody)
      (helse : ∀ stmt, elseBody = some stmt → WellTyped symbols returnType inLoop stmt) :
      WellTyped symbols returnType inLoop (.conditional condition thenBody elseBody span)
  | whileLoop {inLoop : Bool} {condition : Expr} {body : Stmt} {elseBody : Option Stmt}
      (span : Span) (hcondition : condition.WellTyped symbols) (hbool : condition.ty = .bool)
      (hbody : WellTyped symbols returnType true body)
      (helse : ∀ stmt, elseBody = some stmt → WellTyped symbols returnType inLoop stmt) :
      WellTyped symbols returnType inLoop (.whileLoop condition body elseBody span)
  | breakLoop (span : Span) : WellTyped symbols returnType true (.breakLoop span)
  | continueLoop (span : Span) : WellTyped symbols returnType true (.continueLoop span)
  | yield {inLoop : Bool} {value : Option Expr} (span : Span)
      (hvalue : ∀ e, value = some e → e.WellTyped symbols) :
      WellTyped symbols returnType inLoop (.yield value span)
  | deadCode {inLoop : Bool} {stmts : List Stmt} (span : Span)
      (hstmts : ∀ stmt ∈ stmts, WellTyped symbols returnType inLoop stmt) :
      WellTyped symbols returnType inLoop (.deadCode stmts span)

/-- The body of a function that returns `returnType` is well typed. -/
def Body.WellTyped (symbols : SymbolTable) (returnType : Ty) : Body → Prop
  | .empty => True
  | .block stmts _ => ∀ stmt ∈ stmts, stmt.WellTyped symbols returnType false
  | .expression value => value.WellTyped symbols ∧ value.ty = returnType

/-- The symbol is a variable of a type. -/
def IsVariable (symbols : SymbolTable) (id : SymbolId) (ty : Ty) : Prop :=
  ∃ symbol, symbols[id]? = some symbol ∧ symbol.kind = .binding ∧ symbol.ty = ty

/-- The function is well typed: its symbol is a function of its name, its parameters are variables
of the types that the signature says, and so is its body. -/
structure Function.WellTyped (symbols : SymbolTable) (f : Function) (signature : Signature) :
    Prop where
  symbol : ∃ symbol, symbols[f.symbol]? = some symbol ∧ symbol.name = f.name ∧
    symbol.signature? = some signature
  params : List.Forall₂ (IsVariable symbols) f.params signature.paramTypes
  body : f.body.WellTyped symbols signature.returnType

/-- The program is well typed: the types of its symbols are settled, and its functions are well
typed over them. -/
structure Program.WellTyped (p : Program) : Prop where
  symbols : p.symbols.Grounded
  functions : ∀ f, .function f ∈ p.decls → ∃ signature, f.WellTyped p.symbols signature

end Typed

end Laye
