import Laye.Proofs.Passes.Step
import Laye.Proofs.Regular.Expression

/-!
# The pass over expressions

`Guarded.check` types an expression as `Expr.check` does. It reports a fault where it meets one and
then stops, and it looks before it reads a symbol, takes a field of a struct or computes the limit
of a literal. In a sound context, in which all types are in normal form, it never traps, and it
reports exactly one fault if it stops and none if it does not (`Guarded.check_runs`): the names of
the scopes stand for places in the table, the places that a field is looked up under are those of
the struct, and literals only get types with widths that there are. -/

namespace Laye

open Step (report stop look)

/-- A sized integer type has one of the widths that have a keyword. -/
def Ty.HasKeywordWidth (ty : Ty) : Prop :=
  ∀ signed bits, ty = .sizedInt signed bits → bits ∈ Builtin.integerWidths

/-- Integer types in normal form have widths that there are. -/
theorem Ty.Normal.hasKeywordWidth {table : SymbolTable} {behind : Bool} {ty : Ty}
    (h : ty.Normal table behind) : ty.HasKeywordWidth := by
  rintro signed bits rfl
  cases h with
  | keyword hwidth => exact of_decide_eq_true hwidth

namespace Guarded

/-! ### Looks -/

/-- The symbol at a place. -/
def symbolAt (symbols : SymbolTable) (id : SymbolId) : Except Trap Symbol :=
  match symbols[id]? with
  | some symbol => .ok symbol
  | none => .error (.symbol id)

/-- The field at a place. -/
def fieldAt (fields : List (String × Ty)) (place : Nat) : Except Trap (String × Ty) :=
  match fields[place]? with
  | some field => .ok field
  | none => .error (.field place)

/-- What keeps an integer literal out of a type, if anything does. -/
def literalProblem? (magnitude : Nat) (negative : Bool) (target : Ty) :
    Except Trap (Option Problem) :=
  match target.integerInfo? with
  | none => .ok none
  | some (signed, bits) =>
    if negative && magnitude != 0 && !signed then
      .ok (some (.negativeForUnsigned magnitude target))
    else do
      let limit ← Word.limit signed bits negative
      if magnitude ≤ limit.toNat then .ok none
      else .ok (some (.outOfRange negative magnitude target limit.toNat))

/-- The struct that a reference by name stands for. -/
def expand (ctx : Context) : Ty → Except Trap Ty
  | .structRef name =>
    match ctx.scopes.lookupGlobal name with
    | some id => do
      let symbol ← symbolAt ctx.symbols id
      .ok symbol.ty
    | none => .ok (.structRef name)
  | ty => .ok ty

/-- The function that a call by name refers to. -/
def callee? (ctx : Context) (name : String) : Except Trap (Option (SymbolId × Signature)) :=
  match ctx.scopes.lookupGlobal name with
  | none => .ok none
  | some id => do
    let symbol ← symbolAt ctx.symbols id
    .ok (symbol.signature?.map (id, ·))

/-- Whether the expression is a place. -/
def isPlace (ctx : Context) : Typed.Expr → Except Trap Bool
  | .load _ _ id => do
    let symbol ← symbolAt ctx.symbols id
    .ok (symbol.kind = .binding)
  | .dereference _ _ _ => .ok true
  | .index _ _ target _ =>
    match target.ty with
    | .array _ _ _ => isPlace ctx target
    | _ => .ok true
  | .field _ _ target _ _ => isPlace ctx target
  | _ => .ok false

/-- The type of the elements that indexing a type gives. -/
def elementType? (ctx : Context) : Ty → Except Trap (Option Ty)
  | .array element _ _ | .buffer element _ | .slice element _ => do
    let ty ← expand ctx element
    .ok (some ty)
  | .string => .ok (some .u8)
  | _ => .ok none

/-- Fields are reached through one pointer to a struct. -/
def throughPointer (ctx : Context) (target : Typed.Expr) : Except Trap Typed.Expr :=
  match target.ty with
  | .pointer (.structRef name) _ => do
    let ty ← expand ctx (.structRef name)
    .ok (.dereference ty target.span target)
  | _ => .ok target

/-- The name and the type of what stands before a variant, and the variants, if it is the name of
something of an enum type. -/
def enumOf? (ctx : Context) : Expr → Except Trap (Option (Ident × String × List (String × Nat)))
  | .name ident =>
    match ctx.scopes.lookup ident.name with
    | none => .ok none
    | some id => do
      let symbol ← symbolAt ctx.symbols id
      match symbol.ty with
      | .enum name variants => .ok (some (ident, name, variants))
      | _ => .ok none
  | _ => .ok none

variable {S : Type} [Logs S]

/-! ### Conversions -/

/-- An integer literal at an integer type, if it fits. -/
def literalAs (e : Typed.Expr) (target : Ty) : Step S Typed.Expr :=
  match e with
  | .integer _ span magnitude negative => do
    match ← look (literalProblem? magnitude negative target) with
    | some problem => do
      report ⟨e.span, problem⟩
      stop
    | none => pure (.integer target span magnitude negative)
  | _ => do
    report ⟨e.span, .noConversion e.ty target⟩
    stop

/-- An expression at a type. -/
def convertTo (e : Typed.Expr) (target : Ty) : Step S Typed.Expr :=
  match Conversion.between e.ty target with
  | some .keep => pure e
  | some .literal => literalAs e target
  | some .address => do
    let e ← literalAs e (.int false)
    pure (e.castTo target)
  | some .toFloat => pure (e.literalToFloat target)
  | some .retype => pure (e.retype target)
  | some .cast => pure (e.castTo target)
  | some .materialize => pure (e.materializeTo target)
  | none => do
    report ⟨e.span, .noConversion e.ty target⟩
    stop

/-- A literal at the type that it has when nothing else decides. -/
def withDefaultType (e : Typed.Expr) : Step S Typed.Expr :=
  match e.ty with
  | .untypedInt signed => literalAs e (.int signed)
  | .untypedFloat => pure (e.retype .float)
  | .untypedBool => pure (e.retype .bool)
  | .untypedString => pure (e.retype .string)
  | _ => pure e

/-- An argument beyond the parameters of a C function. -/
def promoted (e : Typed.Expr) : Step S Typed.Expr :=
  match e.ty with
  | .untypedString => pure (e.retype .cString)
  | .sizedInt signed bits =>
    if bits < 32 then pure (e.castTo (.sizedInt signed 32)) else pure e
  | .sizedFloat bits => if bits < 64 then pure (e.castTo .f64) else pure e
  | .void => do
    report ⟨e.span, .voidArgument⟩
    stop
  | _ => withDefaultType e

/-- The operand of a float operator as a float. -/
def toFloat (e : Typed.Expr) : Step S Typed.Expr :=
  match e.ty with
  | .float => pure e
  | .untypedFloat => pure (e.retype .float)
  | .untypedInt _ => pure (e.literalToFloat .float)
  | .int _ | .sizedInt _ _ | .sizedFloat _ => pure (e.castTo .float)
  | _ => do
    report ⟨e.span, .notNumeric e.ty⟩
    stop

/-- The type that operands of two concrete types are brought to, or the problem at both. -/
def commonType (span : Span) (left right : Ty) : Step S Ty :=
  if left = right then pure left
  else
    match left.integerInfo?, right.integerInfo? with
    | some (_, leftBits), some (_, rightBits) =>
      match left, right with
      | .int _, .int _ => do
        report ⟨span, .signsDiffer left right⟩
        stop
      | .int _, _ => pure left
      | _, .int _ => pure right
      | _, _ =>
        if rightBits < leftBits then pure left
        else if leftBits < rightBits then pure right
        else do
          report ⟨span, .signsDifferAtWidth left right⟩
          stop
    | _, _ => do
      report ⟨span, .noCommonType left right⟩
      stop

/-- Brings two operands of concrete types to their common type. -/
def unifyConcrete (left right : Typed.Expr) : Step S (Typed.Expr × Typed.Expr) := do
  let ty ← commonType (left.span.combine right.span) left.ty right.ty
  pure (left.widenTo ty, right.widenTo ty)

/-- Brings the two operands of a numeric operator to a common type. -/
def unify (left right : Typed.Expr) : Step S (Typed.Expr × Typed.Expr) :=
  if left.ty.isFloatLike || right.ty.isFloatLike then do
    let left ← toFloat left
    let right ← toFloat right
    pure (left, right)
  else
    match left.ty, right.ty with
    | .untypedInt leftSigned, .untypedInt rightSigned => do
      let left ← literalAs left (.int leftSigned)
      let right ← literalAs right (.int rightSigned)
      pure (left, right)
    | .untypedInt _, ty =>
      if ty.isInteger then do
        let left ← literalAs left ty
        pure (left, right)
      else notNumeric
    | ty, .untypedInt _ =>
      if ty.isInteger then do
        let right ← literalAs right ty
        pure (left, right)
      else notNumeric
    | leftTy, rightTy =>
      if leftTy.isUntyped || rightTy.isUntyped then notNumeric else unifyConcrete left right
where
  notNumeric : Step S (Typed.Expr × Typed.Expr) := do
    report ⟨left.span.combine right.span, .notNumericPair left.ty right.ty⟩
    stop

/-! ### Expressions -/

/-- A name used as a value. -/
def name (ctx : Context) (ident : Ident) : Step S Typed.Expr :=
  match ctx.scopes.lookup ident.name with
  | none => do
    report ⟨ident.span, .unknownName ident.name⟩
    stop
  | some id => do
    let symbol ← look (symbolAt ctx.symbols id)
    if symbol.kind.isType then do
      report ⟨ident.span, .typeAsValue ident.name⟩
      stop
    else pure (.load symbol.ty ident.span id)

/-- The arguments of a call at the types of the parameters. -/
def arguments : List Ty → List Typed.Expr → Step S (List Typed.Expr)
  | _, [] => pure []
  | [], arg :: args => do
    let arg ← promoted arg
    let args ← arguments [] args
    pure (arg :: args)
  | ty :: tys, arg :: args => do
    let arg ← convertTo arg ty
    let args ← arguments tys args
    pure (arg :: args)

/-- A call. -/
def invoke (ctx : Context) (target : Expr) (args : List Typed.Expr) (span : Span) :
    Step S Typed.Expr :=
  match target with
  | .name ident => do
    match ← look (callee? ctx ident.name) with
    | none => do
      report ⟨ident.span, .unknownFunction ident.name⟩
      stop
    | some (function, signature) =>
      match Typing.argumentCountProblem? ident.name signature args.length with
      | some problem => do
        report ⟨span, problem⟩
        stop
      | none => do
        let args ← arguments signature.paramTypes args
        pure (.invoke signature.returnType span function args)
  | _ => do
    report ⟨target.span, .calleeNotNamed⟩
    stop

/-- A negation. -/
def negation (value : Typed.Expr) (span : Span) : Step S Typed.Expr :=
  match value with
  | .integer (.untypedInt _) _ magnitude negative =>
    pure (.integer (.untypedInt true) span magnitude !negative)
  | .float .untypedFloat _ float => pure (.float .untypedFloat span (-float))
  | _ =>
    match value.ty with
    | .int false | .sizedInt false _ => do
      report ⟨value.span, .negateUnsigned value.ty⟩
      stop
    | .int true | .sizedInt true _ | .float | .sizedFloat _ =>
      pure (.unary value.ty span .neg value)
    | _ => do
      report ⟨value.span, .negateOperand value.ty⟩
      stop

/-- An operator applied to one operand. -/
def unary (ctx : Context) (op : UnaryOp) (value : Typed.Expr) (span : Span) : Step S Typed.Expr :=
  match op with
  | .neg => negation value span
  | .not => do
    let value ← convertTo value .bool
    pure (.unary .bool span .not value)
  | .bitNot => do
    let value ← withDefaultType value
    if value.ty.isInteger then pure (.unary value.ty span .bitNot value)
    else do
      report ⟨value.span, .complementOperand value.ty⟩
      stop
  | .addressOf => do
    if ← look (isPlace ctx value) then
      pure (.addressOf (.pointerTo value.ty value.addressAccess) span value)
    else do
      report ⟨value.span, .addressOfValue⟩
      stop
  | .dereference =>
    match value.ty with
    | .pointer element _ => do
      let ty ← look (expand ctx element)
      pure (.dereference ty span value)
    | ty => do
      report ⟨value.span, .dereferenceOperand ty⟩
      stop

/-- Both operands as truth values. -/
def truthOperands (left right : Typed.Expr) : Step S (Typed.Expr × Typed.Expr) := do
  let left ← convertTo left .bool
  let right ← convertTo right .bool
  pure (left, right)

/-- The operands of a comparison at one type. -/
def comparisonOperands (left right : Typed.Expr) : Step S (Typed.Expr × Typed.Expr) :=
  if left.ty.isBoolLike || right.ty.isBoolLike then truthOperands left right
  else if left.ty = right.ty ∧ Typing.comparesDirectly left.ty then pure (left, right)
  else unify left right

/-- An operator applied to two operands. -/
def binary (op : BinaryOp) (left right : Typed.Expr) (span : Span) : Step S Typed.Expr :=
  if op.isLogical then do
    let (left, right) ← truthOperands left right
    pure (.binary .bool span op left right)
  else if op.isComparison then do
    let (left, right) ← comparisonOperands left right
    if Typing.isComparable op left.ty then pure (.binary .bool span op left right)
    else do
      report ⟨span, .undefinedOperator op left.ty⟩
      stop
  else do
    let (left, right) ← unify left right
    if Typing.isComputable op left.ty then pure (.binary left.ty span op left right)
    else do
      report ⟨span, .undefinedOperator op left.ty⟩
      stop

/-- An index as an integer. -/
def indexOperand (e : Typed.Expr) : Step S Typed.Expr :=
  if e.ty.isUntyped then convertTo e (.int false)
  else if e.ty.isInteger then pure e
  else do
    report ⟨e.span, .indexOperand e.ty⟩
    stop

/-- An element of an array, buffer, slice or string. -/
def index (ctx : Context) (target i : Typed.Expr) (span : Span) : Step S Typed.Expr := do
  match ← look (elementType? ctx target.ty) with
  | none => do
    report ⟨target.span, .notIndexable target.ty⟩
    stop
  | some element => do
    let i ← indexOperand i
    pure (.index element span target i)

/-- A field of a struct: first its place is found, then its type is taken from there. -/
def field (ctx : Context) (target : Typed.Expr) (ident : Ident) (span : Span) :
    Step S Typed.Expr := do
  let target ← look (throughPointer ctx target)
  match target.ty with
  | .struct struct _ fields =>
    match fields.findIdx? (·.1 == ident.name) with
    | none => do
      report ⟨ident.span, .unknownField struct ident.name⟩
      stop
    | some place => do
      let field ← look (fieldAt fields place)
      pure (.field field.2 span target ident.name place)
  | ty => do
    report ⟨target.span, .noFields ty⟩
    stop

/-- A variant of an enum. -/
def variant (enum : Ident) (name : String) (variants : List (String × Nat)) (ident : Ident)
    (span : Span) : Step S Typed.Expr :=
  match variants.lookup ident.name with
  | some value => pure (.integer (.enum name variants) span value false)
  | none => do
    report ⟨ident.span, .unknownVariant enum.name ident.name⟩
    stop

mutual

/-- Types an expression. -/
def check (ctx : Context) : Expr → Step S Typed.Expr
  | .integer value signed span => pure (.integer (.untypedInt signed) span value false)
  | .float value span => pure (.float .untypedFloat span value)
  | .bool value span => pure (.bool .untypedBool span value)
  | .string value span => pure (.string .untypedString span value)
  | .name ident => name ctx ident
  | .invoke target args span => do
    let args ← checkAll ctx args
    invoke ctx target args span
  | .unary op operand span => do
    let operand ← check ctx operand
    unary ctx op operand span
  | .binary op left right span => do
    let left ← check ctx left
    let right ← check ctx right
    binary op left right span
  | .index target i span => do
    let target ← check ctx target
    let i ← check ctx i
    index ctx target i span
  | .field target ident span => do
    match ← look (enumOf? ctx target) with
    | some (enum, name, variants) => variant enum name variants ident span
    | none => do
      let target ← check ctx target
      field ctx target ident span

/-- Types expressions from left to right. -/
def checkAll (ctx : Context) : List Expr → Step S (List Typed.Expr)
  | [] => pure []
  | e :: es => do
    let e ← check ctx e
    let es ← checkAll ctx es
    pure (e :: es)

end

/-! ### No step traps -/

variable {table : SymbolTable} {ctx : Context}

variable {id : SymbolId} {name : String} {signed : Bool} {target : Ty} {left right : Typed.Expr}

/-- A symbol that is there is found. -/
theorem symbolAt_eq_ok {symbols : SymbolTable} {symbol : Symbol} (h : symbols[id]? = some symbol) :
    symbolAt symbols id = .ok (symbols.symbolAt id) := by
  simp [symbolAt, h, SymbolTable.symbolAt_eq h]

/-- Names of the scopes stand for symbols that are there. -/
theorem symbolAt_lookup (hctx : ctx.Sound) (h : ctx.scopes.lookup name = some id) :
    symbolAt ctx.symbols id = .ok (ctx.symbolAt id) := by
  obtain ⟨_, hsymbol, -⟩ := hctx.lookup h
  exact symbolAt_eq_ok hsymbol

theorem symbolAt_lookupGlobal (hctx : ctx.Sound) (h : ctx.scopes.lookupGlobal name = some id) :
    symbolAt ctx.symbols id = .ok (ctx.symbolAt id) := by
  obtain ⟨_, hsymbol, -⟩ := hctx.global name id h
  exact symbolAt_eq_ok hsymbol

theorem mem_integerWidths {ty : Ty} (hty : ty.HasKeywordWidth) {bits : Nat}
    (hinfo : ty.integerInfo? = some (signed, bits)) : bits ∈ Builtin.integerWidths := by
  cases ty with
  | int =>
    cases hinfo
    decide
  | sizedInt =>
    cases hinfo
    exact hty _ _ rfl
  | _ => cases hinfo

theorem hasKeywordWidth_int (signed : Bool) : (Ty.int signed).HasKeywordWidth := by
  rintro _ _ ⟨⟩

/-- A literal is of no sized type, and other expressions have types in normal form. -/
theorem hasKeywordWidth_of_loose {e : Typed.Expr} (h : e.Loose table) : e.ty.HasKeywordWidth := by
  intro signed bits hty
  have hregular := h.regular (by rw [hty]; rfl)
  exact hregular.ty.hasKeywordWidth signed bits hty

theorem literalProblem?_eq_ok (htarget : target.HasKeywordWidth) (magnitude : Nat)
    (negative : Bool) : literalProblem? magnitude negative target =
      .ok (Laye.literalProblem? magnitude negative target) := by
  unfold literalProblem? Laye.literalProblem?
  cases hinfo : target.integerInfo? with
  | none => rfl
  | some info =>
    obtain ⟨signed, _⟩ := info
    obtain ⟨_, hword, hlimit⟩ :=
      Word.limit_eq_ok (mem_integerWidths htarget hinfo) signed negative
    simp only
    split
    · rfl
    · simp only [hword, hlimit, bind, Except.bind]
      split <;> rfl

theorem expand_eq_ok (hctx : ctx.Sound) (ty : Ty) : expand ctx ty = .ok (ctx.expand ty) := by
  cases ty with
  | structRef name =>
    simp only [expand, Context.expand]
    cases hid : ctx.scopes.lookupGlobal name with
    | none => rfl
    | some _ => simp [symbolAt_lookupGlobal hctx hid, bind, Except.bind]
  | _ => rfl

theorem callee?_eq_ok (hctx : ctx.Sound) (name : String) :
    callee? ctx name = .ok (ctx.callee? name) := by
  simp only [callee?, Context.callee?]
  cases hid : ctx.scopes.lookupGlobal name with
  | none => rfl
  | some _ => simp [symbolAt_lookupGlobal hctx hid, bind, Except.bind]

theorem isPlace_eq_ok {e : Typed.Expr} (he : e.WellTyped ctx.symbols) :
    isPlace ctx e = .ok (e.isPlaceIn ctx) := by
  induction he with
  | load _ hsymbol _ =>
    simp only [isPlace, symbolAt_eq_ok hsymbol]
    rfl
  | @index _ target _ _ _ _ _ _ ih =>
    simp only [isPlace, Typed.Expr.isPlaceIn, Typed.Expr.isPlace]
    generalize target.ty = ty
    cases ty with
    | array => exact ih
    | _ => rfl
  | field _ _ _ _ _ ih => exact ih
  | _ => rfl

/-! ### Conversions -/

open Step (Runs)

section Conversions

variable {e : Typed.Expr}

theorem runs_literalAs (htarget : target.HasKeywordWidth) (e : Typed.Expr) :
    Runs (S := S) (literalAs e target) (e.literalAs target) := by
  cases e with
  | integer _ _ magnitude negative =>
    refine .look_bind (literalProblem?_eq_ok htarget magnitude negative) ?_
    simp only [Typed.Expr.literalAs]
    cases Laye.literalProblem? magnitude negative target with
    | some _ => exact .refused _
    | none => exact .pure _
  | _ => exact .refused _

theorem runs_convertTo (htarget : target.HasKeywordWidth) (e : Typed.Expr) :
    Runs (S := S) (convertTo e target) (e.convertTo target) := by
  unfold convertTo Typed.Expr.convertTo
  cases Conversion.between e.ty target with
  | none => exact .refused _
  | some conversion =>
    cases conversion with
    | literal => exact runs_literalAs htarget e
    | address =>
      exact (runs_literalAs (hasKeywordWidth_int false) e).bind fun _ _ => .pure _
    | _ => exact .pure _

theorem runs_withDefaultType (e : Typed.Expr) :
    Runs (S := S) (withDefaultType e) e.withDefaultType := by
  unfold withDefaultType Typed.Expr.withDefaultType
  cases e.ty with
  | untypedInt signed => exact runs_literalAs (hasKeywordWidth_int signed) e
  | _ => exact .pure _

theorem runs_promoted (e : Typed.Expr) : Runs (S := S) (promoted e) e.promoted := by
  unfold promoted Typed.Expr.promoted
  cases e.ty with
  | untypedString => exact .pure _
  | sizedInt _ bits | sizedFloat _ =>
    simp only
    split <;> exact .pure _
  | void => exact .refused _
  | _ => exact runs_withDefaultType e

theorem runs_toFloat (e : Typed.Expr) : Runs (S := S) (toFloat e) e.toFloat := by
  unfold toFloat Typed.Expr.toFloat
  cases e.ty with
  | float | untypedFloat | untypedInt | int | sizedInt | sizedFloat => exact .pure _
  | _ => exact .refused _

theorem runs_commonType (span : Span) (left right : Ty) :
    Runs (S := S) (commonType span left right)
      ((Laye.commonType left right).mapError fun problem => ⟨span, problem⟩) := by
  unfold commonType Laye.commonType
  split
  · exact .pure _
  · cases left with
    | int _ =>
      cases right with
      | int => exact .refused _
      | sizedInt => exact .pure _
      | _ => exact .refused _
    | sizedInt _ _ =>
      cases right with
      | int => exact .pure _
      | sizedInt _ _ =>
        simp only [Ty.integerInfo?]
        split
        · exact .pure _
        · split
          · exact .pure _
          · exact .refused _
      | _ => exact .refused _
    | _ => exact .refused _

theorem runs_unifyConcrete (left right : Typed.Expr) :
    Runs (S := S) (unifyConcrete left right) (left.unifyConcrete right) := by
  have hrun : Runs (S := S) (unifyConcrete left right)
      ((Laye.commonType left.ty right.ty).mapError (fun problem =>
        ⟨left.span.combine right.span, problem⟩) >>= fun ty =>
          .ok (left.widenTo ty, right.widenTo ty)) :=
    (runs_commonType _ _ _).bind fun _ _ => .pure _
  unfold Typed.Expr.unifyConcrete
  cases hty : Laye.commonType left.ty right.ty with
  | ok _ | error _ =>
    rw [hty] at hrun
    exact hrun

theorem runs_unify (hleft : left.ty.HasKeywordWidth) (hright : right.ty.HasKeywordWidth) :
    Runs (S := S) (unify left right) (left.unify right) := by
  unfold unify Typed.Expr.unify
  split
  · exact (runs_toFloat left).bind fun _ _ => (runs_toFloat right).bind fun _ _ => .pure _
  generalize left.ty = leftTy, right.ty = rightTy at hleft hright
  cases leftTy with
  | untypedInt _ =>
    cases rightTy with
    | untypedInt _ =>
      exact (runs_literalAs (hasKeywordWidth_int _) left).bind fun _ _ =>
        (runs_literalAs (hasKeywordWidth_int _) right).bind fun _ _ => .pure _
    | int _ | sizedInt _ _ => exact (runs_literalAs hright left).bind fun _ _ => .pure _
    | _ => exact .refused _
  | int _ | sizedInt _ _ =>
    cases rightTy with
    | untypedInt _ => exact (runs_literalAs hleft right).bind fun _ _ => .pure _
    | untypedFloat | untypedBool | untypedString => exact .refused _
    | _ => exact runs_unifyConcrete left right
  | untypedFloat | untypedBool | untypedString => cases rightTy <;> exact .refused _
  | _ =>
    cases rightTy with
    | untypedInt _ | untypedFloat | untypedBool | untypedString => exact .refused _
    | _ => exact runs_unifyConcrete left right

end Conversions

/-! ### Expressions -/

theorem runs_name (hctx : ctx.Sound) (ident : Ident) :
    Runs (S := S) (Guarded.name ctx ident) (Typing.name ctx ident) := by
  unfold Guarded.name Typing.name
  cases hid : ctx.scopes.lookup ident.name with
  | none => exact .refused _
  | some _ =>
    refine .look_bind (symbolAt_lookup hctx hid) ?_
    simp only
    split
    · exact .refused _
    · exact .pure _

theorem runs_arguments {tys : List Ty} (htys : ∀ ty ∈ tys, ty.Normal table false)
    (args : List Typed.Expr) : Runs (S := S) (arguments tys args) (Typing.arguments tys args) := by
  induction args generalizing tys with
  | nil => cases tys <;> exact .pure _
  | cons arg _ ih =>
    cases tys with
    | nil =>
      unfold arguments Typing.arguments
      exact (runs_promoted arg).bind fun _ _ => (ih (by simp)).bind fun _ _ => .pure _
    | cons _ _ =>
      obtain ⟨hty, htys⟩ := List.forall_mem_cons.mp htys
      exact (runs_convertTo hty.hasKeywordWidth arg).bind fun _ _ =>
        (ih htys).bind fun _ _ => .pure _

theorem runs_invoke (hctx : ctx.Sound) (hregular : ctx.Regular table) (target : Expr)
    (args : List Typed.Expr) (span : Span) :
    Runs (S := S) (invoke ctx target args span) (Typing.invoke ctx target args span) := by
  cases target with
  | name ident =>
    simp only [invoke, Typing.invoke]
    refine .look_bind (callee?_eq_ok hctx ident.name) ?_
    cases hcallee : ctx.callee? ident.name with
    | none => exact .refused _
    | some callee =>
      obtain ⟨_, signature⟩ := callee
      simp only
      cases Typing.argumentCountProblem? ident.name signature args.length with
      | some _ => exact .refused _
      | none =>
        exact (runs_arguments (hregular.callee? hctx hcallee).2 args).bind fun _ _ => .pure _
  | _ => exact .refused _

theorem runs_negation (value : Typed.Expr) (span : Span) :
    Runs (S := S) (negation value span) (Typing.negation value span) := by
  unfold negation
  split
  · exact .pure _
  · exact .pure _
  · simp only [Typing.negation]
    cases value.ty with
    | int signed | sizedInt signed =>
      cases signed with
      | false => exact .refused _
      | true => exact .pure _
    | float | sizedFloat => exact .pure _
    | _ => exact .refused _

theorem runs_unary (hctx : ctx.Sound) {value : Typed.Expr} (hvalue : value.Checked ctx.symbols)
    (op : UnaryOp) (span : Span) :
    Runs (S := S) (unary ctx op value span) (Typing.unary ctx op value span) := by
  cases op with
  | neg => exact runs_negation value span
  | not =>
    have hbool : Ty.bool.HasKeywordWidth := by rintro _ _ ⟨⟩
    exact (runs_convertTo hbool value).bind fun _ _ => .pure _
  | bitNot =>
    refine (runs_withDefaultType value).bind fun value' _ => ?_
    split
    · exact .pure _
    · exact .refused _
  | addressOf =>
    have hplace : isPlace ctx value = .ok (value.isPlaceIn ctx) := by
      rcases hvalue with hwell | hliteral
      · exact isPlace_eq_ok hwell
      · cases hliteral <;> rfl
    refine .look_bind hplace ?_
    simp only [Typing.unary, Typing.addressOf]
    split
    · exact .pure _
    · exact .refused _
  | dereference =>
    simp only [unary, Typing.unary, Typing.dereference]
    cases value.ty with
    | pointer element _ => exact .look_bind (expand_eq_ok hctx element) (.pure _)
    | _ => exact .refused _

theorem runs_truthOperands (left right : Typed.Expr) :
    Runs (S := S) (truthOperands left right) (Typing.truthOperands left right) := by
  have hbool : Ty.bool.HasKeywordWidth := by rintro _ _ ⟨⟩
  exact (runs_convertTo hbool left).bind fun _ _ =>
    (runs_convertTo hbool right).bind fun _ _ => .pure _

theorem runs_comparisonOperands (hleft : left.ty.HasKeywordWidth)
    (hright : right.ty.HasKeywordWidth) :
    Runs (S := S) (comparisonOperands left right) (Typing.comparisonOperands left right) := by
  unfold comparisonOperands Typing.comparisonOperands
  split
  · exact runs_truthOperands left right
  · split
    · exact .pure _
    · exact runs_unify hleft hright

theorem runs_binary (hleft : left.ty.HasKeywordWidth) (hright : right.ty.HasKeywordWidth)
    (op : BinaryOp) (span : Span) :
    Runs (S := S) (binary op left right span) (Typing.binary op left right span) := by
  unfold binary Typing.binary
  split
  · exact (runs_truthOperands left right).bind fun _ _ => .pure _
  · split
    · refine (runs_comparisonOperands hleft hright).bind fun operands _ => ?_
      simp only
      split
      · exact .pure _
      · exact .refused _
    · refine (runs_unify hleft hright).bind fun operands _ => ?_
      simp only
      split
      · exact .pure _
      · exact .refused _

theorem elementType?_eq_ok (hctx : ctx.Sound) (ty : Ty) :
    elementType? ctx ty = .ok (Typing.elementType? ctx ty) := by
  cases ty with
  | array element | buffer element | slice _ =>
    simp [elementType?, Typing.elementType?, expand_eq_ok hctx, bind, Except.bind]
  | _ => rfl

theorem runs_indexOperand (e : Typed.Expr) :
    Runs (S := S) (indexOperand e) (Typing.indexOperand e) := by
  unfold indexOperand Typing.indexOperand
  split
  · exact runs_convertTo (hasKeywordWidth_int false) e
  · split
    · exact .pure _
    · exact .refused _

theorem runs_index (hctx : ctx.Sound) (target i : Typed.Expr) (span : Span) :
    Runs (S := S) (index ctx target i span) (Typing.index ctx target i span) := by
  unfold index Typing.index
  refine .look_bind (elementType?_eq_ok hctx target.ty) ?_
  cases Typing.elementType? ctx target.ty with
  | none => exact .refused _
  | some _ => exact (runs_indexOperand i).bind fun _ _ => .pure _

theorem throughPointer_eq_ok (hctx : ctx.Sound) (target : Typed.Expr) :
    throughPointer ctx target = .ok (Typing.throughPointer ctx target) := by
  unfold throughPointer Typing.throughPointer
  cases target.ty with
  | pointer element _ =>
    cases element with
    | structRef _ => simp [expand_eq_ok hctx, bind, Except.bind]
    | _ => rfl
  | _ => rfl

/-- A name that has a place among the fields has a type there. -/
theorem exists_lookup_of_findIdx? {fields : List (String × Ty)} {place : Nat}
    (h : fields.findIdx? (·.1 == name) = some place) : ∃ ty, fields.lookup name = some ty := by
  refine Option.ne_none_iff_exists'.mp fun hnone => ?_
  obtain ⟨hlt, hname, -⟩ := List.findIdx?_eq_some_iff_getElem.mp h
  have hne := List.lookup_eq_none_iff.mp hnone _ (List.getElem_mem hlt)
  rw [eq_of_beq hname] at hne
  simp at hne

theorem runs_field (hctx : ctx.Sound) (target : Typed.Expr) (ident : Ident) (span : Span) :
    Runs (S := S) (field ctx target ident span) (Typing.field ctx target ident span) := by
  unfold field Typing.field
  refine .look_bind (throughPointer_eq_ok hctx target) ?_
  simp only
  cases (Typing.throughPointer ctx target).ty with
  | struct _ _ fields =>
    simp only
    cases hplace : fields.findIdx? (·.1 == ident.name) with
    | none => exact .refused _
    | some place =>
      obtain ⟨ty, hty⟩ := exists_lookup_of_findIdx? hplace
      have hfield : fieldAt fields place = .ok (ident.name, ty) := by
        simp [fieldAt, Typing.getElem?_of_findIdx? hplace hty]
      rw [hty]
      exact .look_bind hfield (.pure _)
  | _ => exact .refused _

theorem runs_variant (enum : Ident) (name : String) (variants : List (String × Nat))
    (ident : Ident) (span : Span) :
    Runs (S := S) (variant enum name variants ident span)
      (match variants.lookup ident.name with
      | some value => .ok (.integer (.enum name variants) span value false)
      | none => .error ⟨ident.span, .unknownVariant enum.name ident.name⟩) := by
  unfold variant
  cases variants.lookup ident.name with
  | some _ => exact .pure _
  | none => exact .refused _

/-- What stands before a name is of an enum type exactly where the rule for variants applies, and
the rule then takes the variant. -/
theorem enumOf?_eq_ok (hctx : ctx.Sound) (target : Expr) (ident : Ident) (span : Span) :
    (enumOf? ctx target = .ok none ∧ Typing.enumVariant? ctx target ident span = none) ∨
    ∃ enum name variants result, enumOf? ctx target = .ok (some (enum, name, variants)) ∧
      Typing.enumVariant? ctx target ident span = some result ∧
      Runs (S := S) (variant enum name variants ident span) result := by
  cases target with
  | name enum =>
    simp only [enumOf?, Typing.enumVariant?]
    cases hid : ctx.scopes.lookup enum.name with
    | none => exact .inl ⟨rfl, rfl⟩
    | some id =>
      simp only [symbolAt_lookup hctx hid, bind, Except.bind]
      cases (ctx.symbolAt id).ty with
      | enum name variants =>
        have hrun := runs_variant (S := S) enum name variants ident span
        refine .inr ⟨enum, name, variants, ?_⟩
        cases hvalue : variants.lookup ident.name with
        | some value =>
          rw [hvalue] at hrun
          exact ⟨_, rfl, by simp only [hvalue], hrun⟩
        | none =>
          rw [hvalue] at hrun
          exact ⟨_, rfl, by simp only [hvalue], hrun⟩
      | _ => exact .inl ⟨rfl, rfl⟩
  | _ => exact .inl ⟨rfl, rfl⟩

mutual

/-- Typing an expression never traps. It reports one fault and stops, or it reports none. -/
theorem check_runs (hctx : ctx.Sound) (hregular : ctx.Regular table) : (e : Expr) →
    Runs (S := S) (check ctx e) (e.check ctx)
  | .integer _ _ _ | .float _ _ | .bool _ _ | .string _ _ => .pure _
  | .name ident => runs_name hctx ident
  | .invoke target args span =>
    (checkAll_runs hctx hregular args).bind fun args' _ =>
      runs_invoke hctx hregular target args' span
  | .unary op operand span =>
    (check_runs hctx hregular operand).bind fun operand' hoperand =>
      runs_unary hctx (Expr.check_checked hctx operand hoperand) op span
  | .binary op left right span =>
    (check_runs hctx hregular left).bind fun left' hleft =>
      (check_runs hctx hregular right).bind fun right' hright =>
        runs_binary (hasKeywordWidth_of_loose (Expr.check_loose hctx hregular left hleft))
          (hasKeywordWidth_of_loose (Expr.check_loose hctx hregular right hright)) op span
  | .index target i span =>
    (check_runs hctx hregular target).bind fun target' _ =>
      (check_runs hctx hregular i).bind fun i' _ => runs_index hctx target' i' span
  | .field target ident span => by
    unfold check Expr.check
    rcases enumOf?_eq_ok (S := S) hctx target ident span with
      ⟨hlook, hvariant⟩ | ⟨enum, name, variants, result, hlook, hvariant, hrun⟩
    · refine .look_bind hlook ?_
      rw [hvariant]
      exact (check_runs hctx hregular target).bind fun target' _ =>
        runs_field hctx target' ident span
    · refine .look_bind hlook ?_
      rw [hvariant]
      exact hrun

theorem checkAll_runs (hctx : ctx.Sound) (hregular : ctx.Regular table) : (es : List Expr) →
    Runs (S := S) (checkAll ctx es) (Expr.checkAll ctx es)
  | [] => by
    unfold checkAll Expr.checkAll
    exact .pure _
  | e :: es =>
    (check_runs hctx hregular e).bind fun _ _ =>
      (checkAll_runs hctx hregular es).bind fun _ _ => .pure _

end

end Guarded

end Laye
