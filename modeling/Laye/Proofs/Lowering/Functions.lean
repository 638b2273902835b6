import Laye.Lowering.Program
import Mathlib.Data.List.Forall2

/-!
# The functions of a lowered module

Lowering a program goes through its declarations in order. `Typed.Program.functions_lower` says
what comes of it: the functions of the module are, one by one and in order, those of the program
that have a body. `Lowering.Becomes` relates a checked function to the function that is made of it.
-/

namespace Laye

/-- Whether a function has a body. -/
def Typed.Function.isDefined (f : Typed.Function) : Bool :=
  match f.body with
  | .empty => false
  | .block _ _ | .expression _ => true

/-- Whether a function gives no value. -/
def Typed.Function.returnsVoid (symbols : SymbolTable) (f : Typed.Function) : Bool :=
  (symbols.symbolAt f.symbol).signature?.any (·.returnType.isVoid)

/-- The functions with a body among declarations, in order. -/
def Typed.Decl.definedFunctions (decls : List Typed.Decl) : List Typed.Function :=
  (decls.filterMap Typed.Decl.function?).filter Typed.Function.isDefined

theorem Typed.Decl.mem_definedFunctions {decls : List Typed.Decl} {f : Typed.Function} :
    f ∈ definedFunctions decls ↔ .function f ∈ decls ∧ f.isDefined = true := by
  rw [definedFunctions, List.mem_filter, List.mem_filterMap]
  refine and_congr_left' ⟨?_, fun h => ⟨.function f, h, rfl⟩⟩
  rintro ⟨decl, hdecl, hf⟩
  cases decl with
  | function g =>
    cases hf
    exact hdecl
  | _ => cases hf

namespace Lowering

variable {symbols : SymbolTable} {m m' : IR.Module}

/-- `g` is what lowering makes of the function `f`. -/
structure Becomes (symbols : SymbolTable) (f : Typed.Function) (g : IR.Function) : Prop where
  name_eq : g.name = f.name
  entry_eq : g.entry = Builder.entry
  built : ∃ signature b, (symbols.symbolAt f.symbol).signature? = some signature ∧
    code symbols signature.returnType.isVoid f .start = .ok ((), b) ∧
    complete signature.returnType.isVoid f b.blocks = .ok g.blocks

variable {f : Typed.Function}

theorem blocks_eq_ok {returnsVoid : Bool} {result : List IR.Block}
    (h : blocks symbols returnsVoid f = .ok result) :
    ∃ b, code symbols returnsVoid f .start = .ok ((), b) ∧
      complete returnsVoid f b.blocks = .ok result := by
  unfold blocks at h
  cases hcode : code symbols returnsVoid f .start with
  | error _ =>
    rw [hcode] at h
    cases h
  | ok result =>
    obtain ⟨⟨⟩, b⟩ := result
    rw [hcode] at h
    exact ⟨b, rfl, h⟩

theorem addFunction_functions (h : addFunction symbols m f = .ok m') :
    (f.isDefined = false ∧ m'.functions = m.functions) ∨
    (f.isDefined = true ∧ ∃ g, Becomes symbols f g ∧ m'.functions = m.functions ++ [g]) := by
  unfold addFunction at h
  cases hsignature : (symbols.symbolAt f.symbol).signature? with
  | none => simp [hsignature] at h
  | some signature =>
    simp only [hsignature] at h
    cases hbody : f.body with
    | empty =>
      simp only [hbody, Except.ok.injEq] at h
      exact .inl ⟨by simp [Typed.Function.isDefined, hbody], by rw [← h]⟩
    | _ =>
      simp only [hbody] at h
      cases hblocks : blocks symbols signature.returnType.isVoid f with
      | error _ =>
        rw [hblocks] at h
        cases h
      | ok _ =>
        rw [hblocks] at h
        obtain ⟨b, hcode, hcomplete⟩ := blocks_eq_ok hblocks
        refine .inr ⟨by simp [Typed.Function.isDefined, hbody], _, ⟨rfl, rfl, ?_⟩,
          congrArg IR.Module.functions (Except.ok.inj h).symm⟩
        exact ⟨signature, b, hsignature, hcode, hcomplete⟩

theorem addDecl_functions {decl : Typed.Decl} (h : addDecl symbols m decl = .ok m') :
    (Typed.Decl.definedFunctions [decl] = [] ∧ m'.functions = m.functions) ∨
    ∃ f g, Typed.Decl.definedFunctions [decl] = [f] ∧ Becomes symbols f g ∧
      m'.functions = m.functions ++ [g] := by
  cases decl with
  | struct _ _ =>
    refine .inl ⟨rfl, ?_⟩
    simp only [addDecl] at h
    split at h <;> rw [← Except.ok.inj h]
  | enum _ _ => exact .inl ⟨rfl, congrArg IR.Module.functions (Except.ok.inj h).symm⟩
  | function f =>
    rcases addFunction_functions h with ⟨hdefined, hsame⟩ | ⟨hdefined, g, hbecomes, hadded⟩
    · exact .inl ⟨by simp [Typed.Decl.definedFunctions, Typed.Decl.function?, hdefined], hsame⟩
    · exact .inr ⟨f, g, by simp [Typed.Decl.definedFunctions, Typed.Decl.function?, hdefined],
        hbecomes, hadded⟩

theorem foldlM_addDecl_functions {decls : List Typed.Decl}
    (h : decls.foldlM (addDecl symbols) m = .ok m') :
    ∃ added, m'.functions = m.functions ++ added ∧
      List.Forall₂ (Becomes symbols) (Typed.Decl.definedFunctions decls) added := by
  induction decls generalizing m with
  | nil =>
    cases h
    exact ⟨[], by simp, .nil⟩
  | cons decl rest ih =>
    have hsplit : Typed.Decl.definedFunctions (decl :: rest) =
        Typed.Decl.definedFunctions [decl] ++ Typed.Decl.definedFunctions rest := by
      simp only [Typed.Decl.definedFunctions, ← List.filter_append, ← List.filterMap_append,
        List.singleton_append]
    rw [List.foldlM_cons] at h
    cases hdecl : addDecl symbols m decl with
    | error _ =>
      rw [hdecl] at h
      cases h
    | ok _ =>
      rw [hdecl] at h
      obtain ⟨added, hfunctions, hall⟩ := ih h
      rcases addDecl_functions hdecl with ⟨hnone, hsame⟩ | ⟨f, g, hone, hbecomes, hadded⟩
      · exact ⟨added, by rw [hfunctions, hsame], by rw [hsplit, hnone]; exact hall⟩
      · exact ⟨g :: added, by rw [hfunctions, hadded]; simp,
          by rw [hsplit, hone]; exact .cons hbecomes hall⟩

end Lowering

/-- The functions of a lowered program are those with a body, in order. -/
theorem Typed.Program.functions_lower {p : Typed.Program} {name : String} {m : IR.Module}
    (h : p.lower name = .ok m) :
    List.Forall₂ (Lowering.Becomes p.symbols) (Typed.Decl.definedFunctions p.decls)
      m.functions := by
  obtain ⟨_, hfunctions, hall⟩ := Lowering.foldlM_addDecl_functions h
  rw [hfunctions]
  exact hall

theorem Typed.Program.becomes_of_mem_functions {p : Typed.Program} {name : String} {m : IR.Module}
    (h : p.lower name = .ok m) {g : IR.Function} (hg : g ∈ m.functions) :
    ∃ f ∈ Typed.Decl.definedFunctions p.decls, Lowering.Becomes p.symbols f g := by
  obtain ⟨i, hi, rfl⟩ := List.getElem_of_mem hg
  have hall := List.forall₂_iff_get.mp (functions_lower h)
  have hi' : i < (Typed.Decl.definedFunctions p.decls).length := hall.1 ▸ hi
  exact ⟨_, List.get_mem _ ⟨i, hi'⟩, hall.2 i hi' hi⟩

end Laye
