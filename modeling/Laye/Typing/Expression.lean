import Laye.Scope
import Laye.Syntax.Basic
import Laye.Typing.Conversion

/-!
# Typing expressions

`Expr.check` gives an expression its type, or says what is wrong with it. It changes nothing: what
names mean is read from a `Context`. Each kind of expression has a rule of its own that works on
operands that are already typed.
-/

namespace Laye

/-- What names mean at a point of the program. -/
structure Context where
  symbols : SymbolTable
  scopes : ScopeStack
deriving Inhabited

namespace Context

/-- The symbol at a place. -/
def symbolAt (ctx : Context) (id : SymbolId) : Symbol := ctx.symbols.symbolAt id

/-- Whether a symbol is a variable. -/
def isBinding (ctx : Context) (id : SymbolId) : Bool := (ctx.symbolAt id).kind = .binding

/-- The struct that a reference by name stands for; other types stand for themselves. -/
def expand (ctx : Context) : Ty → Ty
  | .structRef name =>
    match ctx.scopes.lookupGlobal name with
    | some id => (ctx.symbolAt id).ty
    | none => .structRef name
  | ty => ty

/-- The function that a call by name refers to. Only functions of the global scope can be called,
and no local name hides them. -/
def callee? (ctx : Context) (name : String) : Option (SymbolId × Signature) :=
  match ctx.scopes.lookupGlobal name with
  | none => none
  | some id => (ctx.symbolAt id).signature?.map (id, ·)

end Context

/-- How writing through a container is restricted, if it is forbidden. -/
def Ty.protection? : Ty → Option Access
  | .string => some .readOnly
  | .pointer _ access | .buffer _ access | .slice _ access | .array _ _ access =>
    if access.forbidsWriting then some access else none
  | _ => none

namespace Typed.Expr

/-- The type of the container that a store to the expression would write through. -/
def container? : Expr → Option Ty
  | .dereference _ _ inner => some inner.ty
  | .index _ _ target _ => some target.ty
  | .field _ _ target _ _ => target.container?
  | _ => none

/-- The container of the expression, if nothing may be written through it. -/
def readOnlyContainer? (e : Expr) : Option Ty := e.container?.filter (·.protection?.isSome)

/-- What a pointer to the expression allows: as much as the container it points into. -/
def addressAccess (e : Expr) : Access := (e.container?.bind Ty.protection?).getD .readWrite

/-- Whether the expression is a place that can be stored to or pointed to. -/
def isPlaceIn (e : Expr) (ctx : Context) : Bool := e.isPlace ctx.isBinding

end Typed.Expr

namespace Typing

/-- A name used as a value. -/
def name (ctx : Context) (ident : Ident) : Except Fault Typed.Expr :=
  match ctx.scopes.lookup ident.name with
  | none => .error ⟨ident.span, .unknownName ident.name⟩
  | some id =>
    let symbol := ctx.symbolAt id
    if symbol.kind.isType then .error ⟨ident.span, .typeAsValue ident.name⟩
    else .ok (.load symbol.ty ident.span id)

/-! ### Calls -/

/-- Converts arguments to the types of the parameters; the arguments beyond those are promoted. -/
def arguments : List Ty → List Typed.Expr → Except Fault (List Typed.Expr)
  | _, [] => .ok []
  | [], arg :: args => do
    let arg ← arg.promoted
    let args ← arguments [] args
    .ok (arg :: args)
  | ty :: tys, arg :: args => do
    let arg ← arg.convertTo ty
    let args ← arguments tys args
    .ok (arg :: args)

/-- What is wrong with the number of arguments of a call, if anything is. -/
def argumentCountProblem? (name : String) (signature : Signature) (given : Nat) :
    Option Problem :=
  let expected := signature.params.length
  if signature.varArgs = .c then
    if given < expected then some (.tooFewArguments expected name given) else none
  else if given ≠ expected then some (.argumentCount expected name given)
  else none

/-- A call. -/
def invoke (ctx : Context) (target : Laye.Expr) (args : List Typed.Expr) (span : Span) :
    Except Fault Typed.Expr :=
  match target with
  | .name ident =>
    match ctx.callee? ident.name with
    | none => .error ⟨ident.span, .unknownFunction ident.name⟩
    | some (function, signature) =>
      match argumentCountProblem? ident.name signature args.length with
      | some problem => .error ⟨span, problem⟩
      | none => do
        let args ← arguments signature.paramTypes args
        .ok (.invoke signature.returnType span function args)
  | _ => .error ⟨target.span, .calleeNotNamed⟩

/-! ### Operators with one operand -/

/-- A negation. That of a literal is a literal. -/
def negation (value : Typed.Expr) (span : Span) : Except Fault Typed.Expr :=
  match value with
  | .integer (.untypedInt _) _ magnitude negative =>
    .ok (.integer (.untypedInt true) span magnitude !negative)
  | .float .untypedFloat _ float => .ok (.float .untypedFloat span (-float))
  | _ =>
    match value.ty with
    | .int false | .sizedInt false _ => value.fault (.negateUnsigned value.ty)
    | .int true | .sizedInt true _ | .float | .sizedFloat _ =>
      .ok (.unary value.ty span .neg value)
    | _ => value.fault (.negateOperand value.ty)

/-- A logical negation. -/
def logicalNot (value : Typed.Expr) (span : Span) : Except Fault Typed.Expr := do
  let value ← value.convertTo .bool
  .ok (.unary .bool span .not value)

/-- The complement of all bits. -/
def complement (value : Typed.Expr) (span : Span) : Except Fault Typed.Expr := do
  let value ← value.withDefaultType
  if value.ty.isInteger then .ok (.unary value.ty span .bitNot value)
  else value.fault (.complementOperand value.ty)

/-- The address of a place. -/
def addressOf (ctx : Context) (value : Typed.Expr) (span : Span) : Except Fault Typed.Expr :=
  if value.isPlaceIn ctx then .ok (.addressOf (.pointerTo value.ty value.addressAccess) span value)
  else value.fault .addressOfValue

/-- What a pointer points to. -/
def dereference (ctx : Context) (value : Typed.Expr) (span : Span) : Except Fault Typed.Expr :=
  match value.ty with
  | .pointer element _ => .ok (.dereference (ctx.expand element) span value)
  | ty => value.fault (.dereferenceOperand ty)

/-- An operator applied to one operand. -/
def unary (ctx : Context) (op : UnaryOp) (value : Typed.Expr) (span : Span) :
    Except Fault Typed.Expr :=
  match op with
  | .neg => negation value span
  | .not => logicalNot value span
  | .bitNot => complement value span
  | .addressOf => addressOf ctx value span
  | .dereference => dereference ctx value span

/-! ### Operators with two operands -/

/-- Both operands as truth values. -/
def truthOperands (left right : Typed.Expr) : Except Fault (Typed.Expr × Typed.Expr) := do
  let left ← left.convertTo .bool
  let right ← right.convertTo .bool
  .ok (left, right)

/-- Whether values of the type are compared as they are when both operands have it. -/
def comparesDirectly (ty : Ty) : Bool := !ty.isInteger && !ty.isFloatLike && !ty.isUntyped

/-- The operands of a comparison at one type. -/
def comparisonOperands (left right : Typed.Expr) : Except Fault (Typed.Expr × Typed.Expr) :=
  if left.ty.isBoolLike || right.ty.isBoolLike then truthOperands left right
  else if left.ty = right.ty ∧ comparesDirectly left.ty then .ok (left, right)
  else left.unify right

/-- Whether a comparison is defined for a type. Numbers and runes are ordered; structs and arrays
cannot be compared at all. -/
def isComparable (op : BinaryOp) (ty : Ty) : Bool :=
  ty.isInteger || ty.isFloatLike ||
    match ty with
    | .rune => true
    | .struct _ _ _ | .array _ _ _ => false
    | _ => op.isEquality

/-- Whether an arithmetic or bitwise operator is defined for a type. -/
def isComputable (op : BinaryOp) (ty : Ty) : Bool :=
  ty.isInteger || (!op.isBitwise && ty.isFloatLike)

/-- An operator applied to two operands. -/
def binary (op : BinaryOp) (left right : Typed.Expr) (span : Span) : Except Fault Typed.Expr :=
  if op.isLogical then do
    let (left, right) ← truthOperands left right
    .ok (.binary .bool span op left right)
  else if op.isComparison then do
    let (left, right) ← comparisonOperands left right
    if isComparable op left.ty then .ok (.binary .bool span op left right)
    else .error ⟨span, .undefinedOperator op left.ty⟩
  else do
    let (left, right) ← left.unify right
    if isComputable op left.ty then .ok (.binary left.ty span op left right)
    else .error ⟨span, .undefinedOperator op left.ty⟩

/-! ### Elements and fields -/

/-- The type of the elements that indexing a type gives. -/
def elementType? (ctx : Context) : Ty → Option Ty
  | .array element _ _ | .buffer element _ | .slice element _ => some (ctx.expand element)
  | .string => some .u8
  | _ => none

/-- An index as an integer. A literal is unsigned. -/
def indexOperand (e : Typed.Expr) : Except Fault Typed.Expr :=
  if e.ty.isUntyped then e.convertTo (.int false)
  else if e.ty.isInteger then .ok e
  else e.fault (.indexOperand e.ty)

/-- An element of an array, buffer, slice or string. -/
def index (ctx : Context) (target i : Typed.Expr) (span : Span) : Except Fault Typed.Expr :=
  match elementType? ctx target.ty with
  | none => target.fault (.notIndexable target.ty)
  | some element => do
    let i ← indexOperand i
    .ok (.index element span target i)

/-- Fields are reached through one pointer to a struct, which is followed first. -/
def throughPointer (ctx : Context) (target : Typed.Expr) : Typed.Expr :=
  match target.ty with
  | .pointer (.structRef name) _ =>
    .dereference (ctx.expand (.structRef name)) target.span target
  | _ => target

/-- A field of a struct. -/
def field (ctx : Context) (target : Typed.Expr) (ident : Ident) (span : Span) :
    Except Fault Typed.Expr :=
  let target := throughPointer ctx target
  match target.ty with
  | .struct struct _ fields =>
    match fields.findIdx? (·.1 == ident.name), fields.lookup ident.name with
    | some place, some ty => .ok (.field ty span target ident.name place)
    | _, _ => .error ⟨ident.span, .unknownField struct ident.name⟩
  | ty => target.fault (.noFields ty)

/-- A variant of an enum, if the target is the name of something of an enum type. -/
def enumVariant? (ctx : Context) (target : Laye.Expr) (ident : Ident) (span : Span) :
    Option (Except Fault Typed.Expr) :=
  match target with
  | .name enum =>
    match ctx.scopes.lookup enum.name with
    | none => none
    | some id =>
      match (ctx.symbolAt id).ty with
      | .enum name variants =>
        match variants.lookup ident.name with
        | some value => some (.ok (.integer (.enum name variants) span value false))
        | none => some (.error ⟨ident.span, .unknownVariant enum.name ident.name⟩)
      | _ => none
  | _ => none

end Typing

namespace Expr

mutual

/-- Types an expression. -/
def check (ctx : Context) : Expr → Except Fault Typed.Expr
  | .integer value signed span => .ok (.integer (.untypedInt signed) span value false)
  | .float value span => .ok (.float .untypedFloat span value)
  | .bool value span => .ok (.bool .untypedBool span value)
  | .string value span => .ok (.string .untypedString span value)
  | .name ident => Typing.name ctx ident
  | .invoke target args span => do
    let args ← checkAll ctx args
    Typing.invoke ctx target args span
  | .unary op operand span => do
    let operand ← operand.check ctx
    Typing.unary ctx op operand span
  | .binary op left right span => do
    let left ← left.check ctx
    let right ← right.check ctx
    Typing.binary op left right span
  | .index target i span => do
    let target ← target.check ctx
    let i ← i.check ctx
    Typing.index ctx target i span
  | .field target ident span =>
    match Typing.enumVariant? ctx target ident span with
    | some variant => variant
    | none => do
      let target ← target.check ctx
      Typing.field ctx target ident span

/-- Types expressions from left to right. -/
def checkAll (ctx : Context) : List Expr → Except Fault (List Typed.Expr)
  | [] => .ok []
  | e :: es => do
    let e ← e.check ctx
    let es ← checkAll ctx es
    .ok (e :: es)

end

end Expr

end Laye
