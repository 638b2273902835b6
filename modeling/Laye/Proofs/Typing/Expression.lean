import Laye.Proofs.Scope.Search
import Laye.Proofs.Typing.Rules

/-!
# Checked expressions are well typed

`Context.Sound` says what the checker keeps true of its context: names stand for symbols of that
name, types are settled, and a struct that is referred to by name is found under that name. In such
a context the rules of the checker make well-typed expressions (`Context.Sound.rules`), so
`Expr.check`, if it succeeds, makes a well-typed expression or a literal that has no type yet
(`Expr.check_checked`). -/

namespace Laye

open Typed.Expr (Checked)

/-- What names stand for is known and settled. -/
structure Context.Sound (ctx : Context) : Prop where
  grounded : ctx.symbols.Grounded
  /-- The names of the inner scopes stand for symbols of these names. -/
  inner : ∀ scope ∈ ctx.scopes.inner, ∀ name id, scope.find? name = some id →
    ctx.symbols.Named name id
  /-- So do those of the global scope. -/
  global : ∀ name id, ctx.scopes.lookupGlobal name = some id → ctx.symbols.Named name id
  expand : ∀ name, ctx.symbols.IsStruct name →
    ctx.expand (.structRef name) = ctx.symbols.expand (.structRef name)

namespace Context.Sound

variable {ctx : Context}

section

variable (h : ctx.Sound)
include h

/-- A name is found at a symbol that has it. -/
theorem lookup {name : String} {id : SymbolId}
    (hid : ctx.scopes.lookup name = some id) : ctx.symbols.Named name id := by
  rw [ScopeStack.lookup_eq] at hid
  rcases Option.or_eq_some_iff.mp hid with hfound | ⟨-, hfound⟩
  · obtain ⟨scope, hscope, hfind⟩ := List.exists_of_findSome?_eq_some hfound
    exact h.inner scope hscope name id hfind
  · exact h.global name id hfound

theorem expand_eq {ty : Ty} (hty : ty.Grounded ctx.symbols.IsStruct) :
    ctx.expand ty = ctx.symbols.expand ty := by
  cases ty with
  | structRef name => exact h.expand name hty
  | _ => rfl

theorem elementType?_eq {ty : Ty} (hty : ty.Grounded ctx.symbols.IsStruct) :
    Typing.elementType? ctx ty = ctx.symbols.elementType? ty := by
  cases ty with
  | array element _ _ | buffer element _ | slice element _ =>
    have helement : element.Grounded ctx.symbols.IsStruct := hty
    exact congrArg some (h.expand_eq helement)
  | _ => rfl

theorem callee {name : String} {function : SymbolId} {signature : Signature}
    (hcallee : ctx.callee? name = some (function, signature)) :
    ∃ symbol, ctx.symbols[function]? = some symbol ∧ symbol.name = name ∧
      symbol.signature? = some signature := by
  unfold Context.callee? at hcallee
  split at hcallee
  · cases hcallee
  · rename_i _ hid
    obtain ⟨symbol, hsymbol, hname⟩ := h.global _ _ hid
    rw [Context.symbolAt, SymbolTable.symbolAt_eq hsymbol] at hcallee
    obtain ⟨_, hsignature, ⟨⟩⟩ := Option.map_eq_some_iff.mp hcallee
    exact ⟨symbol, hsymbol, hname, hsignature⟩

theorem element {value : Typed.Expr} {element : Ty} {access : Access}
    (hvalue : value.WellTyped ctx.symbols) (hty : value.ty = .pointer element access) :
    element.Grounded ctx.symbols.IsStruct := by
  have hgrounded := hvalue.grounded h.grounded
  rwa [hty] at hgrounded

theorem throughPointer {target : Typed.Expr} (htarget : target.WellTyped ctx.symbols) :
    (Typing.throughPointer ctx target).WellTyped ctx.symbols := by
  unfold Typing.throughPointer
  split
  · rename_i name _ hty
    rw [h.expand name (h.element htarget hty)]
    exact .dereference _ htarget hty
  · exact htarget

/-- The rules of the checker make well-typed expressions of literals and well-typed ones. -/
theorem rules : Typing.Rules ctx (Ty.Grounded ctx.symbols.IsStruct)
    (fun _ t => t.Checked ctx.symbols) (fun _ t => t.WellTyped ctx.symbols) where
  chosen := by simp [Ty.chosen, Ty.defaults, Ty.Grounded, Ty.f64, Ty.cString, Ty.bufferOf,
    Ty.indirect, Ty.u8]
  params hcallee ty hty := by
    obtain ⟨_, hsymbol, -, hsignature⟩ := h.callee hcallee
    have hgrounded := Signature.grounded_iff.mp (Symbol.grounded_of_signature? hsignature
      (h.grounded _ (List.mem_of_getElem? hsymbol)))
    obtain ⟨_, hparam, rfl⟩ := List.mem_map.mp hty
    exact hgrounded.2.of_mem hparam
  operand _ hinteger := Ty.grounded_of_isInteger hinteger
  settle ht hsettles := hsettles.wellTyped h.grounded ht
  place ht hplace := ht.wellTyped_of_isPlace hplace
  loosen := .inl
  integer _ _ _ := .inr (.integer _ _ _ _)
  float _ _ := .inr (.float _ _)
  bool _ _ := .inr (.bool _ _)
  string _ _ := .inr (.string _ _)
  negatedInteger _ _ := .inr (.integer _ _ _ _)
  negatedFloat _ _ := .inr (.float _ _)
  name hid hkind := by
    obtain ⟨symbol, hsymbol, -⟩ := h.lookup hid
    rw [Context.symbolAt, SymbolTable.symbolAt_eq hsymbol] at hkind ⊢
    refine .load _ hsymbol ?_
    cases hk : symbol.kind with
    | binding => exact .inl rfl
    | function => exact .inr rfl
    | _ => simp [hk, SymbolKind.isType] at hkind
  variant span hid henum hvalue := by
    obtain ⟨symbol, hsymbol, -⟩ := h.lookup hid
    rw [Context.symbolAt, SymbolTable.symbolAt_eq hsymbol] at henum
    exact .variant span ⟨symbol, List.mem_of_getElem? hsymbol, henum⟩ hvalue
  invoke span hargs hcallee hmatch := by
    obtain ⟨_, hsymbol, -, hsignature⟩ := h.callee hcallee
    refine .invoke span hsymbol hsignature (fun arg harg => ?_) hmatch
    obtain ⟨i, hi, rfl⟩ := List.getElem_of_mem harg
    exact hargs.get (hargs.length_eq ▸ hi) hi
  unary _ span hoperand haccepts _ := .unary span hoperand haccepts
  addressOf span hoperand hplace := .addressOf span hoperand hplace
  dereference span hoperand hty := by
    rw [h.expand_eq (h.element hoperand hty)]
    exact .dereference span hoperand hty
  binary span hleft hright hsame haccepts := .binary span hleft hright hsame haccepts
  index span htarget hi helement hinteger :=
    .index span htarget hi (h.elementType?_eq (htarget.grounded h.grounded) ▸ helement) hinteger
  field span htarget hstruct hfield hname :=
    .field span (h.throughPointer htarget) hstruct hfield hname

end

end Context.Sound

/-- What checking makes of an expression is well typed, or a literal without a type. -/
theorem Expr.check_checked {ctx : Context} (hctx : ctx.Sound) (e : Expr) {t : Typed.Expr}
    (h : e.check ctx = .ok t) : t.Checked ctx.symbols :=
  hctx.rules.check e h

end Laye
