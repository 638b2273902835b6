import Laye.Proofs.Lowering.Functions
import Laye.Proofs.Typing.Conversion

/-!
# A module is made of parts

Each declaration of a program adds a part to the module, whatever was added before it:
`Lowering.Adds` relates a declaration to the part, a module of its own, and
`Typed.Program.lower_eq_ok` says that lowering succeeds exactly if every declaration has a part, and
gives the parts put together.
-/

namespace Laye

namespace IR.Module

/-- The module with what another one holds added at the end. -/
def append (m part : Module) : Module :=
  { m with
    functions := m.functions ++ part.functions
    structs := m.structs ++ part.structs
    externals := m.externals ++ part.externals }

/-- The module that holds what all parts hold, in order. -/
def ofParts (name : String) (parts : List Module) : Module :=
  { name
    functions := parts.flatMap Module.functions
    structs := parts.flatMap Module.structs
    externals := parts.flatMap Module.externals }

end IR.Module

namespace Lowering

variable {symbols : SymbolTable} {m m' part : IR.Module} {decl : Typed.Decl} {f : Typed.Function}

/-- The declaration adds the part to a module. -/
def Adds (symbols : SymbolTable) (decl : Typed.Decl) (part : IR.Module) : Prop :=
  addDecl symbols (.empty "") decl = .ok part

theorem addDecl_eq (symbols : SymbolTable) (m : IR.Module) (decl : Typed.Decl) :
    addDecl symbols m decl = (addDecl symbols (.empty "") decl).map m.append := by
  cases decl with
  | struct _ _ =>
    simp only [addDecl]
    split <;> simp [Except.map, IR.Module.append, IR.Module.empty]
  | enum _ _ => simp [addDecl, Except.map, IR.Module.append, IR.Module.empty]
  | function f =>
    simp only [addDecl, addFunction]
    cases (symbols.symbolAt f.symbol).signature? with
    | none => rfl
    | some signature =>
      cases f.body with
      | empty => simp [Except.map, IR.Module.append, IR.Module.empty]
      | _ =>
        cases hblocks : blocks symbols signature.returnType.isVoid f with
        | error _ => simp [hblocks, bind, Except.bind, Except.map]
        | ok _ =>
          simp [hblocks, bind, Except.bind, Except.map, IR.Module.append, IR.Module.empty]

theorem addDecl_eq_ok : addDecl symbols m decl = .ok m' ↔
    ∃ part, Adds symbols decl part ∧ m' = m.append part := by
  rw [addDecl_eq]
  unfold Adds
  cases addDecl symbols (.empty "") decl with
  | error _ => simp [Except.map]
  | ok _ => simp [Except.map, eq_comm]

/-- The function that is made of a function with a body. -/
structure Defines (symbols : SymbolTable) (f : Typed.Function) (signature : Signature)
    (g : IR.Function) : Prop where
  name_eq : g.name = f.name
  params_eq : g.params = namedShapes signature.params
  ret_eq : g.ret = signature.returnType.shape
  blocks_eq : blocks symbols signature.returnType.isVoid f = .ok g.blocks

theorem Adds.of_function (h : Adds symbols (.function f) part) :
    ∃ signature, (symbols.symbolAt f.symbol).signature? = some signature ∧
      ((∃ g, Defines symbols f signature g ∧ part = { IR.Module.empty "" with functions := [g] }) ∨
        ∃ e : IR.External, e.name = f.name ∧ e.params = namedShapes signature.params ∧
          e.ret = signature.returnType.shape ∧ e.varArgs = signature.varArgs ∧
          part = { IR.Module.empty "" with externals := [e] }) := by
  simp only [Adds, addDecl, addFunction] at h
  cases hsignature : (symbols.symbolAt f.symbol).signature? with
  | none => simp [hsignature] at h
  | some signature =>
    simp only [hsignature] at h
    refine ⟨signature, rfl, ?_⟩
    cases hbody : f.body with
    | empty =>
      simp only [hbody] at h
      cases h
      exact .inr ⟨_, rfl, rfl, rfl, rfl, rfl⟩
    | _ =>
      simp only [hbody] at h
      obtain ⟨_, hblocks, h⟩ := Typing.bind_eq_ok.mp h
      cases h
      exact .inl ⟨_, ⟨rfl, rfl, rfl, hblocks⟩, rfl⟩

theorem Adds.of_struct {id : SymbolId} {span : Span} (h : Adds symbols (.struct id span) part) :
    (∃ name typeParams fields, (symbols.symbolAt id).ty = .struct name typeParams fields ∧
      part = { IR.Module.empty "" with structs := [⟨name, namedShapes fields⟩] }) ∨
    part = .empty "" := by
  simp only [Adds, addDecl] at h
  split at h
  · rename_i name typeParams fields hty
    cases h
    exact .inl ⟨name, typeParams, fields, hty, rfl⟩
  · cases h
    exact .inr rfl

theorem Adds.of_enum {id : SymbolId} {span : Span} (h : Adds symbols (.enum id span) part) :
    part = .empty "" := by
  cases h
  rfl

theorem foldlM_addDecl_eq_ok {decls : List Typed.Decl} :
    decls.foldlM (addDecl symbols) m = .ok m' ↔
      ∃ parts, List.Forall₂ (Adds symbols) decls parts ∧ m' = m.append (.ofParts "" parts) := by
  induction decls generalizing m with
  | nil =>
    simp [pure, Except.pure, IR.Module.append, IR.Module.ofParts, eq_comm]
  | cons _ _ ih =>
    rw [List.foldlM_cons, Typing.bind_eq_ok]
    constructor
    · rintro ⟨m1, hdecl, h⟩
      obtain ⟨part, hpart, rfl⟩ := addDecl_eq_ok.mp hdecl
      obtain ⟨parts, hparts, rfl⟩ := ih.mp h
      exact ⟨part :: parts, .cons hpart hparts, by simp [IR.Module.append, IR.Module.ofParts]⟩
    · rintro ⟨parts, hall, rfl⟩
      cases hall with
      | @cons _ part _ parts hpart hparts =>
        refine ⟨m.append part, addDecl_eq_ok.mpr ⟨part, hpart, rfl⟩, ih.mpr ⟨parts, hparts, ?_⟩⟩
        simp [IR.Module.append, IR.Module.ofParts]

end Lowering

/-- Lowering a program puts together what its declarations add. -/
theorem Typed.Program.lower_eq_ok {p : Typed.Program} {name : String} {m : IR.Module} :
    p.lower name = .ok m ↔
      ∃ parts, List.Forall₂ (Lowering.Adds p.symbols) p.decls parts ∧ m = .ofParts name parts := by
  unfold lower
  rw [Lowering.foldlM_addDecl_eq_ok]
  simp [IR.Module.append, IR.Module.empty, IR.Module.ofParts]

end Laye
