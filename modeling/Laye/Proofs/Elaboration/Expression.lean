import Laye.Proofs.Elaboration.Relation
import Laye.Proofs.Typing.Expression
import Laye.Proofs.Typing.Weakening

/-!
# Checked expressions say what was written

Checking an expression rewrites it in two ways. Its rules put operands together, and conversions
change an operand that is already typed. What a conversion may do is listed by
`Typed.Expr.Converted`, and nothing of it changes what an expression says
(`Expr.Elaborates.converted`). The rules themselves follow the syntax (`Context.ReadAs.rules`). -/

namespace Laye

namespace Typed.Expr

/-- What becomes of an expression that is converted. -/
inductive Converted : Expr → Expr → Prop where
  | same (e : Expr) : Converted e e
  /-- A literal gets a type. -/
  | retype {e : Expr} (ty : Ty) (huntyped : e.ty.isUntyped = true) : Converted e (e.retype ty)
  /-- An integer literal becomes a float. -/
  | toFloat (signed : Bool) (span : Span) (magnitude : Nat) (negative : Bool) {ty : Ty}
      (hty : ty.isUntyped = false) :
      Converted (.integer (.untypedInt signed) span magnitude negative)
        (.float ty span (if negative then -Float.ofNat magnitude else Float.ofNat magnitude))
  /-- An integer literal becomes an address. -/
  | address {e : Expr} (huntyped : e.ty.isUntyped = true) :
      Converted e ((e.retype (.int false)).castTo .rawptr)
  | cast (e : Expr) (ty : Ty) : Converted e (e.castTo ty)
  | materialize (e : Expr) (ty : Ty) : Converted e (e.materializeTo ty)

theorem Adjusts.converted {e e' : Expr} (h : e.Adjusts e') : e.Converted e' := by
  cases h with
  | same => exact .same e
  | literal hty _ hliteral =>
    obtain ⟨_, _, _, _, rfl, rfl⟩ := literalAs_eq_ok hliteral
    exact .retype _ (congrArg Ty.isUntyped hty)
  | address hty hliteral =>
    obtain ⟨_, _, _, _, rfl, rfl⟩ := literalAs_eq_ok hliteral
    exact .address (congrArg Ty.isUntyped hty)
  | toFloat hty hfloat =>
    cases e with
    | integer =>
      cases hty
      exact .toFloat _ _ _ _ (by rcases hfloat with rfl | ⟨_, rfl⟩ <;> rfl)
    | _ => exact .cast _ _
  | retype hfits =>
    refine .retype _ ?_
    rcases hfits with ⟨hty, -⟩ | ⟨hty, -⟩ | ⟨hty, -⟩ <;> exact congrArg Ty.isUntyped hty
  | cast => exact .cast _ _
  | materialize => exact .materialize _ _

end Typed.Expr

/-! ### Conversions keep what is said -/

namespace Expr

namespace Elaborates

variable {symbols : SymbolTable} {refers : String → SymbolId → Prop} {e : Expr} {t t' : Typed.Expr}

theorem span_eq (h : e.Elaborates symbols refers t) : t.span = e.span := by
  cases h <;> rfl

theorem retype (h : e.Elaborates symbols refers t) (huntyped : t.ty.isUntyped = true) (ty : Ty) :
    e.Elaborates symbols refers (t.retype ty) := by
  cases h with
  | integer _ hliteral => exact .integer ty hliteral
  | integerAsFloat hty _ => cases hty.symm.trans huntyped
  | float _ hliteral => exact .float ty hliteral
  | bool _ value span => exact .bool ty value span
  | string _ value span => exact .string ty value span
  | load _ hname hkind => exact .load ty hname hkind
  | invoke _ span hcallee hargs => exact .invoke ty span hcallee hargs
  | unary _ span op hliteral hoperand => exact .unary ty span op hliteral hoperand
  | addressOf _ span hoperand => exact .addressOf ty span hoperand
  | dereference _ span hoperand => exact .dereference ty span hoperand
  | binary _ span op hleft hright => exact .binary ty span op hleft hright
  | index _ span htarget hi => exact .index ty span htarget hi
  | field _ ident span place hdirect htarget => exact .field ty ident span place hdirect htarget
  | fieldBehind _ ident span place expanded hpointer htarget =>
    exact .fieldBehind ty ident span place expanded hpointer htarget
  | variant => cases huntyped
  | cast _ hinner => exact .cast ty hinner
  | materialize _ hinner => exact .materialize ty hinner

/-- A conversion of what an expression elaborates to is still what it elaborates to. -/
theorem converted (h : e.Elaborates symbols refers t) (hconverted : t.Converted t') :
    e.Elaborates symbols refers t' := by
  cases hconverted with
  | same => exact h
  | retype ty huntyped => exact h.retype huntyped ty
  | toFloat _ _ _ _ hty =>
    -- an integer without a type is a literal, not a variant of an enum
    cases h with
    | integer _ hliteral => exact .integerAsFloat hty hliteral
  | address huntyped =>
    have hretyped := h.retype huntyped (.int false)
    rw [Typed.Expr.castTo, hretyped.span_eq]
    exact .cast _ hretyped
  | cast _ ty =>
    rw [Typed.Expr.castTo, h.span_eq]
    exact .cast ty h
  | materialize _ ty =>
    rw [Typed.Expr.materializeTo, h.span_eq]
    exact .materialize ty h

end Elaborates

/-! ### Literals -/

theorem check_of_integer? {ctx : Context} : (e : Expr) → {magnitude : Nat} → {negative : Bool} →
    {t : Typed.Expr} → e.integer? = some (magnitude, negative) → e.check ctx = .ok t →
    ∃ signed, t = .integer (.untypedInt signed) e.span magnitude negative
  | .integer _ signed _, _, _, _, hliteral, h => by
    cases h
    cases hliteral
    exact ⟨signed, rfl⟩
  | .unary .neg operand _, _, _, _, hliteral, h => by
    obtain ⟨_, hoperand, h⟩ := Typing.bind_eq_ok.mp h
    obtain ⟨⟨_, _⟩, hinner, heq⟩ := Option.map_eq_some_iff.mp hliteral
    cases heq
    obtain ⟨_, rfl⟩ := check_of_integer? operand hinner hoperand
    cases h
    exact ⟨true, rfl⟩

theorem check_of_float? {ctx : Context} : (e : Expr) → {value : Float} → {t : Typed.Expr} →
    e.float? = some value → e.check ctx = .ok t → t = .float .untypedFloat e.span value
  | .float _ _, _, _, hliteral, h => by
    cases h
    cases hliteral
    rfl
  | .unary .neg operand _, _, _, hliteral, h => by
    obtain ⟨_, hoperand, h⟩ := Typing.bind_eq_ok.mp h
    obtain ⟨_, hinner, rfl⟩ := Option.map_eq_some_iff.mp hliteral
    obtain rfl := check_of_float? operand hinner hoperand
    cases h
    rfl

end Expr

/-! ### The rules of the checker -/

theorem Symbol.kind_of_signature? {symbol : Symbol} {signature : Signature}
    (h : symbol.signature? = some signature) : symbol.kind = .function := by
  unfold signature? at h
  split at h
  · rename_i hkind _
    exact hkind
  · cases h

/-- The context is met in a program that ends up with these symbols, and what a name stands for in
it is among what `refers` allows. -/
structure Context.ReadAs (symbols : SymbolTable) (refers : String → SymbolId → Prop)
    (ctx : Context) : Prop where
  sound : ctx.Sound
  symbols : ctx.symbols.Extends symbols
  refers : ∀ name id, ctx.scopes.lookup name = some id → refers name id

namespace Context.ReadAs

variable {ctx : Context} {symbols : SymbolTable} {refers : String → SymbolId → Prop}

/-- Both tables have the same symbol for a name that is found. -/
theorem symbolAt (h : ctx.ReadAs symbols refers) {name : String} {id : SymbolId}
    (hid : ctx.scopes.lookup name = some id) : symbols.symbolAt id = ctx.symbolAt id := by
  obtain ⟨_, hsymbol, -⟩ := h.sound.lookup hid
  rw [Context.symbolAt, SymbolTable.symbolAt_eq hsymbol,
    SymbolTable.symbolAt_eq (h.symbols.getElem? hsymbol)]

/-- What an expression elaborates to follows the rules of the checker. -/
theorem rules (h : ctx.ReadAs symbols refers) : Typing.Rules ctx (fun _ => True)
    (Expr.Elaborates symbols refers) (Expr.Elaborates symbols refers) where
  chosen _ _ := trivial
  params _ _ _ := trivial
  operand _ _ := trivial
  settle ht hsettles := ht.converted hsettles.1.converted
  place ht _ := ht
  loosen ht := ht
  integer value signed span := .integer (e := .integer value signed span) _ rfl
  float value span := .float (e := .float value span) _ rfl
  bool value span := .bool _ value span
  string value span := .string _ value span
  negatedInteger {operand _ _ _ _} span hoperand := by
    cases hoperand with
    | integer _ hliteral =>
      exact .integer (e := .unary .neg operand span) _ (by simp [Expr.integer?, hliteral])
  negatedFloat {operand _ _} span hoperand := by
    cases hoperand with
    | float _ hliteral =>
      exact .float (e := .unary .neg operand span) _ (by simp [Expr.float?, hliteral])
    | integerAsFloat hty _ => cases hty
  name hid hkind := .load _ (h.refers _ _ hid) (h.symbolAt hid ▸ hkind)
  variant span hid henum hvalue := .variant span (h.refers _ _ hid) (h.symbolAt hid ▸ henum) hvalue
  invoke span hargs hcallee _ := by
    obtain ⟨symbol, hsymbol, hname, hsignature⟩ := h.sound.callee hcallee
    exact .invoke _ span ⟨symbol, h.symbols.getElem? hsymbol, hname,
      Symbol.kind_of_signature? hsignature⟩ hargs
  unary {operand value} op span hoperand haccepts hcheck := by
    refine .unary _ span op (fun hneg => ?_) hoperand
    -- a literal would not have got a type
    have hchecked := hcheck hneg
    subst hneg
    constructor
    · refine Option.eq_none_iff_forall_ne_some.mpr fun ⟨magnitude, negative⟩ hsome => ?_
      obtain ⟨_, rfl⟩ := Expr.check_of_integer? operand hsome hchecked
      simp [Typed.UnaryOp.Accepts, Typed.Expr.ty] at haccepts
    · refine Option.eq_none_iff_forall_ne_some.mpr fun value hsome => ?_
      obtain rfl := Expr.check_of_float? operand hsome hchecked
      simp [Typed.UnaryOp.Accepts, Typed.Expr.ty] at haccepts
  addressOf span hoperand _ := .addressOf _ span hoperand
  dereference span hoperand _ := .dereference _ span hoperand
  binary {op _ _ _ _} span hleft hright _ _ := .binary _ span op hleft hright
  index span htarget hi _ _ := .index _ span htarget hi
  field {_ _ ident _ _ _ _ place} span htarget _ _ _ := by
    unfold Typing.throughPointer
    split
    · rename_i hpointer
      rw [htarget.span_eq]
      exact .fieldBehind _ ident span place _ hpointer htarget
    · rename_i hdirect
      exact .field _ ident span place hdirect htarget

end Context.ReadAs

end Laye
