import Laye.Proofs.Typing.Judgement

/-!
# Adding variables

Checking a function adds its variables to the symbols of the program. `SymbolTable.Extends` says
that nothing but variables was added, after the symbols there were. Structs stay what they are, and
an expression that is well typed stays so (`Typed.Expr.WellTyped.mono`).
-/

namespace Laye

namespace SymbolTable

/-- Only variables were added, after the symbols there were. -/
def Extends (symbols symbols' : SymbolTable) : Prop :=
  ∃ locals : SymbolTable, symbols' = symbols ++ locals ∧
    ∀ symbol ∈ locals, symbol.kind = .binding

namespace Extends

variable {symbols symbols' symbols'' : SymbolTable}

theorem refl (symbols : SymbolTable) : symbols.Extends symbols :=
  ⟨[], by simp, by simp⟩

theorem trans (h : symbols.Extends symbols') (h' : symbols'.Extends symbols'') :
    symbols.Extends symbols'' := by
  obtain ⟨locals, rfl, hlocals⟩ := h
  obtain ⟨more, rfl, hmore⟩ := h'
  refine ⟨locals ++ more, by simp, fun symbol hmem => ?_⟩
  rcases List.mem_append.mp hmem with hmem | hmem
  · exact hlocals symbol hmem
  · exact hmore symbol hmem

variable {id : SymbolId} {symbol : Symbol}

section

variable (h : symbols.Extends symbols')
include h

/-- Symbols keep their places in a longer table. -/
theorem getElem? (hsymbol : symbols[id]? = some symbol) : symbols'[id]? = some symbol := by
  obtain ⟨_, rfl, -⟩ := h
  rw [List.getElem?_append_left (List.getElem?_eq_some_iff.mp hsymbol).1, hsymbol]

theorem isPrefix : symbols <+: symbols' := by
  obtain ⟨locals, rfl, -⟩ := h
  exact ⟨locals, rfl⟩

theorem mem (hmem : symbol ∈ symbols) : symbol ∈ symbols' := by
  obtain ⟨_, rfl, -⟩ := h
  exact List.mem_append_left _ hmem

theorem structType?_eq (name : String) : symbols'.structType? name = symbols.structType? name := by
  obtain ⟨locals, rfl, hlocals⟩ := h
  have hnone : locals.find? (fun s => s.kind = .struct ∧ s.name = name) = none := by
    refine List.find?_eq_none.mpr fun symbol hmem => ?_
    simp [hlocals symbol hmem]
  rw [structType?, List.find?_append, hnone, Option.or_none, structType?]

/-- Only variables are added, so the structs stay the same. -/
theorem isStruct_eq : symbols'.IsStruct = symbols.IsStruct := by
  funext name
  simp only [IsStruct, h.structType?_eq]

theorem expand_eq (ty : Ty) : symbols'.expand ty = symbols.expand ty := by
  cases ty with
  | structRef _ => simp only [SymbolTable.expand, h.structType?_eq]
  | _ => rfl

theorem elementType?_eq (ty : Ty) : symbols'.elementType? ty = symbols.elementType? ty := by
  cases ty with
  | array element _ _ | buffer element _ | slice element _ =>
    exact congrArg some (h.expand_eq element)
  | _ => rfl

theorem isBinding_eq (hsymbol : symbols[id]? = some symbol) :
    symbols'.isBinding id = symbols.isBinding id := by
  simp [isBinding, symbolAt, List.getD_eq_getElem?_getD, hsymbol, h.getElem? hsymbol]

theorem named {name : String} (hname : symbols.Named name id) : symbols'.Named name id := by
  obtain ⟨symbol, hsymbol, hname⟩ := hname
  exact ⟨symbol, h.getElem? hsymbol, hname⟩

end

end Extends

end SymbolTable

namespace Typed.Expr.WellTyped

variable {symbols symbols' : SymbolTable} {e : Typed.Expr}

theorem isPlace_eq (h : symbols.Extends symbols') (he : e.WellTyped symbols) :
    e.isPlace symbols'.isBinding = e.isPlace symbols.isBinding := by
  induction he with
  | load _ hsymbol _ => exact h.isBinding_eq hsymbol
  | index _ _ _ _ _ ihtarget _ =>
    simp only [isPlace]
    split
    · exact ihtarget
    · rfl
  | field _ _ _ _ _ ih => exact ih
  | _ => rfl

/-- A well-typed expression stays so when variables are added. -/
theorem mono (h : symbols.Extends symbols') (he : e.WellTyped symbols) : e.WellTyped symbols' := by
  induction he with
  | integer span magnitude negative hty => exact .integer span magnitude negative hty
  | variant span henum hvalue =>
    obtain ⟨symbol, hmem, hty⟩ := henum
    exact .variant span ⟨symbol, h.mem hmem, hty⟩ hvalue
  | float span value hty => exact .float span value hty
  | bool span value => exact .bool span value
  | string span value hty => exact .string span value hty
  | load span hsymbol hkind => exact .load span (h.getElem? hsymbol) hkind
  | cast span _ hcast hty ih => exact .cast span ih hcast (h.isStruct_eq ▸ hty)
  | materialize span _ hslice ih => exact .materialize span ih hslice
  | invoke span hsymbol hsignature _ hmatch ih =>
    exact .invoke span (h.getElem? hsymbol) hsignature ih hmatch
  | unary span _ haccepts ih => exact .unary span ih haccepts
  | binary span _ _ hsame haccepts ihleft ihright =>
    exact .binary span ihleft ihright hsame haccepts
  | addressOf span hinner hplace ih => exact .addressOf span ih ((hinner.isPlace_eq h).trans hplace)
  | dereference span _ hpointer ih => exact h.expand_eq _ ▸ .dereference span ih hpointer
  | index span _ _ helement hinteger ihtarget ihi =>
    exact .index span ihtarget ihi ((h.elementType?_eq _).trans helement) hinteger
  | field span _ hstruct hfield hname ih => exact .field span ih hstruct hfield hname

end Typed.Expr.WellTyped

theorem Typed.Expr.Returns.mono {symbols symbols' : SymbolTable} {returnType : Ty}
    {value : Option Typed.Expr} (h : symbols.Extends symbols')
    (hvalue : Typed.Expr.Returns symbols returnType value) :
    Typed.Expr.Returns symbols' returnType value := by
  cases value with
  | none => exact hvalue
  | some e => exact ⟨hvalue.1, hvalue.2.1.mono h, hvalue.2.2⟩

end Laye
