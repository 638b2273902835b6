import Laye.Proofs.Lowering.Modules
import Laye.Proofs.Lowering.TypedCode
import Laye.Proofs.Typing.Places

/-!
# A lowered module is well typed

The module that an accepted program is lowered to has what the program's symbols stand for
(`Lowering.renders_of_lower`), so the code of its functions is well typed:
`accepted_lower_wellTyped`. -/

namespace Laye

open SymbolTable (symbolAt_eq)
open IR (Frame)

/-! ### What a module holds -/

namespace Lowering

variable {symbols : SymbolTable} {d : Typed.Decl} {part : IR.Module}

theorem map_snd_namedShapes (params : List (String × Ty)) :
    (namedShapes params).map Prod.snd = Ty.paramShapes params := by
  simp [namedShapes, Ty.paramShapes_eq, Function.comp_def]

variable {params : List IR.Ty}

theorem Adds.declares_iff (h : Adds symbols d part) {callee : String} {ret : IR.Ty} :
    part.Declares callee params ret ↔
      ∃ f signature, d = .function f ∧ f.name = callee ∧
        (symbols.symbolAt f.symbol).signature? = some signature ∧
        params = Ty.paramShapes signature.params ∧ ret = signature.returnType.shape := by
  constructor
  · intro hdeclares
    cases d with
    | struct _ _ =>
      rcases h.of_struct with ⟨_, _, _, -, rfl⟩ | rfl <;>
      · cases hdeclares with
        | function hg _ => cases hg
        | external he _ => cases he
    | enum _ _ =>
      cases h.of_enum
      cases hdeclares with
      | function hg _ => cases hg
      | external he _ => cases he
    | function f =>
      obtain ⟨signature, hsignature, ⟨g, hg, rfl⟩ | ⟨e, hname, hparams, hret, -, rfl⟩⟩ :=
        h.of_function
      · cases hdeclares with
        | external he _ => cases he
        | function hmem hname =>
          cases List.mem_singleton.mp hmem
          refine ⟨f, signature, rfl, hg.name_eq.symm.trans hname, hsignature, ?_, hg.ret_eq⟩
          rw [hg.params_eq, map_snd_namedShapes]
      · cases hdeclares with
        | function hmem _ => cases hmem
        | external hmem hname' =>
          cases List.mem_singleton.mp hmem
          refine ⟨f, signature, rfl, hname.symm.trans hname', hsignature, ?_, hret⟩
          rw [hparams, map_snd_namedShapes]
  · rintro ⟨f, signature, rfl, rfl, hsignature, rfl, rfl⟩
    obtain ⟨_, hsignature', ⟨g, hg, rfl⟩ | ⟨e, hname, hparams, hret, -, rfl⟩⟩ := h.of_function
    · cases hsignature.symm.trans hsignature'
      rw [← map_snd_namedShapes, ← hg.params_eq, ← hg.ret_eq]
      exact .function (List.mem_singleton.mpr rfl) hg.name_eq
    · cases hsignature.symm.trans hsignature'
      rw [← map_snd_namedShapes, ← hparams, ← hret]
      exact .external (List.mem_singleton.mpr rfl) hname

theorem Adds.mem_structs_iff (h : Adds symbols d part) {s : IR.Struct} : s ∈ part.structs ↔
    ∃ id span typeParams fields, d = .struct id span ∧
      (symbols.symbolAt id).ty = .struct s.name typeParams fields ∧
      s.fields = namedShapes fields := by
  constructor
  · intro hs
    cases d with
    | struct id span =>
      rcases h.of_struct with ⟨_, typeParams, fields, hty, rfl⟩ | rfl
      · cases List.mem_singleton.mp hs
        exact ⟨id, span, typeParams, fields, rfl, hty, rfl⟩
      · cases hs
    | enum _ _ =>
      cases h.of_enum
      cases hs
    | function f => obtain ⟨_, -, ⟨g, -, rfl⟩ | ⟨e, -, -, -, -, rfl⟩⟩ := h.of_function <;> cases hs
  · rintro ⟨id, span, typeParams, fields, rfl, hty, hfields⟩
    unfold Adds addDecl at h
    simp only [hty] at h
    cases h
    exact List.mem_singleton.mpr (by rw [← hfields])

theorem exists_part_iff {R : IR.Module → Prop} {S : Typed.Decl → Prop} {decls : List Typed.Decl}
    {parts : List IR.Module} (hparts : List.Forall₂ (Adds symbols) decls parts)
    (h : ∀ d part, Adds symbols d part → (R part ↔ S d)) :
    (∃ part ∈ parts, R part) ↔ ∃ d ∈ decls, S d := by
  induction hparts with
  | nil => simp
  | cons hpart _ ih => simp only [List.exists_mem_cons_iff, h _ _ hpart, ih]

variable {p : Typed.Program} {name : String} {m : IR.Module}

theorem declares_iff (hlower : p.lower name = .ok m) {callee : String} {ret : IR.Ty} :
    m.Declares callee params ret ↔
      ∃ d ∈ p.decls, ∃ f signature, d = .function f ∧ f.name = callee ∧
        (p.symbols.symbolAt f.symbol).signature? = some signature ∧
        params = Ty.paramShapes signature.params ∧ ret = signature.returnType.shape := by
  obtain ⟨_, hparts, rfl⟩ := Typed.Program.lower_eq_ok.mp hlower
  rw [← exists_part_iff hparts fun d part hadds => hadds.declares_iff]
  constructor
  · intro h
    cases h with
    | function hg hname =>
      obtain ⟨part, hpart, hg⟩ := List.mem_flatMap.mp hg
      exact ⟨part, hpart, .function hg hname⟩
    | external he hname =>
      obtain ⟨part, hpart, he⟩ := List.mem_flatMap.mp he
      exact ⟨part, hpart, .external he hname⟩
  · rintro ⟨part, hpart, h⟩
    cases h with
    | function hg hname => exact .function (List.mem_flatMap.mpr ⟨part, hpart, hg⟩) hname
    | external he hname => exact .external (List.mem_flatMap.mpr ⟨part, hpart, he⟩) hname

theorem defines_of_mem_functions (hlower : p.lower name = .ok m) {g : IR.Function}
    (hg : g ∈ m.functions) : ∃ f, .function f ∈ p.decls ∧ ∃ signature,
      (p.symbols.symbolAt f.symbol).signature? = some signature ∧
        Defines p.symbols f signature g := by
  obtain ⟨parts, hparts, rfl⟩ := Typed.Program.lower_eq_ok.mp hlower
  obtain ⟨hlength, hadds⟩ := List.forall₂_iff_get.mp hparts
  obtain ⟨_, hpart, hg⟩ := List.mem_flatMap.mp hg
  obtain ⟨i, hi, rfl⟩ := List.getElem_of_mem hpart
  have hi' : i < p.decls.length := hlength.symm ▸ hi
  have hadd : Adds p.symbols p.decls[i] parts[i] := hadds i hi' hi
  cases hd : p.decls[i] with
  | struct _ _ =>
    rw [hd] at hadd
    rcases hadd.of_struct with ⟨_, _, _, -, heq⟩ | heq <;> simp [heq, IR.Module.empty] at hg
  | enum _ _ =>
    rw [hd] at hadd
    simp [hadd.of_enum, IR.Module.empty] at hg
  | function f =>
    rw [hd] at hadd
    obtain ⟨signature, hsignature, ⟨_, hg', heq⟩ | ⟨e, -, -, -, -, heq⟩⟩ := hadd.of_function
    · simp only [heq, List.mem_singleton] at hg
      exact ⟨f, hd ▸ List.getElem_mem hi', signature, hsignature, hg ▸ hg'⟩
    · simp [heq, IR.Module.empty] at hg

theorem mem_structs_iff (hlower : p.lower name = .ok m) {s : IR.Struct} : s ∈ m.structs ↔
    ∃ d ∈ p.decls, ∃ id span typeParams fields, d = .struct id span ∧
      (p.symbols.symbolAt id).ty = .struct s.name typeParams fields ∧
      s.fields = namedShapes fields := by
  obtain ⟨_, hparts, rfl⟩ := Typed.Program.lower_eq_ok.mp hlower
  rw [← exists_part_iff hparts fun d part hadds => hadds.mem_structs_iff]
  exact List.mem_flatMap

theorem mem_symbols_of_struct {id : SymbolId} {name : String} {typeParams : List TypeParam}
    {fields : List (String × Ty)} (h : (symbols.symbolAt id).ty = .struct name typeParams fields) :
    symbols.symbolAt id ∈ symbols := by
  cases hsymbol : symbols[id]? with
  | none =>
    rw [SymbolTable.symbolAt, List.getD_eq_getElem?_getD, hsymbol] at h
    cases h
  | some _ =>
    rw [symbolAt_eq hsymbol]
    exact List.mem_of_getElem? hsymbol

theorem renders_of_lower {tops : List TopLevel} (hplaces : Places tops p)
    (hcanonical : p.symbols.Canonical) (hlower : p.lower name = .ok m) :
    Renders p.symbols m where
  callee symbol hmem signature hsignature params ret := by
    have hkind : symbol.kind = .function := by
      unfold Symbol.signature? at hsignature
      split at hsignature
      · assumption
      · cases hsignature
    obtain ⟨f, hf, hname, hsymbol⟩ := hplaces.function_of_symbol hmem hkind
    rw [declares_iff hlower]
    constructor
    · rintro ⟨d, hd, f', signature', rfl, hname', hsignature', rfl, rfl⟩
      -- The function that is declared under the name is this one.
      have hsame := hplaces.symbol_eq_of_name_eq hd hf (hname'.trans hname.symm)
      rw [hsame, symbolAt_eq hsymbol] at hsignature'
      cases hsignature.symm.trans hsignature'
      exact ⟨rfl, rfl⟩
    · rintro ⟨rfl, rfl⟩
      exact ⟨_, hf, f, signature, rfl, hname, by rw [symbolAt_eq hsymbol]; exact hsignature,
        rfl, rfl⟩
  struct name typeParams fields hstruct := by
    obtain ⟨_, hfind, hty⟩ := Option.map_eq_some_iff.mp hstruct
    have hfound := List.find?_some hfind
    simp only [Bool.decide_and, Bool.and_eq_true, decide_eq_true_eq] at hfound
    obtain ⟨id, span, _, hd, hsymbol, -⟩ :=
      hplaces.struct_of_symbol (List.mem_of_find?_eq_some hfind) hfound.1
    refine ⟨⟨⟨name, namedShapes fields⟩, (mem_structs_iff hlower).mpr ?_, rfl⟩,
      fun s hs hname => ?_⟩
    · exact ⟨_, hd, id, span, typeParams, fields, rfl, by rw [symbolAt_eq hsymbol, hty], rfl⟩
    · obtain ⟨_, -, _, _, _, _, -, hty', hfields⟩ := (mem_structs_iff hlower).mp hs
      have hcanonical' := hcanonical _ (mem_symbols_of_struct hty')
      rw [hty', hname] at hcanonical'
      cases hstruct.symm.trans hcanonical'.of_struct.1
      exact hfields
  function symbol hmem hkind := by
    obtain ⟨i, top, _, -, his⟩ := hplaces.top_of_symbol hmem (by simp [hkind])
    cases top with
    | function _ =>
      obtain ⟨_, hsignature, -⟩ := his.of_function
      rw [hsignature]
      rfl
    | _ =>
      rw [his.kind_eq] at hkind
      cases hkind
  reference name ty hstruct := by
    obtain ⟨_, hfind, rfl⟩ := Option.map_eq_some_iff.mp hstruct
    have hfound := List.find?_some hfind
    simp only [Bool.decide_and, Bool.and_eq_true, decide_eq_true_eq] at hfound
    obtain ⟨_, _, _, -, -, hty⟩ :=
      hplaces.struct_of_symbol (List.mem_of_find?_eq_some hfind) hfound.1
    rw [hty, Ty.shape, hfound.2]

end Lowering

/-! ### Functions -/

namespace Lower.Types

variable {fits : Int → IR.Ty → Prop} {frame : Frame} {symbols : SymbolTable}

theorem params {ids : List SymbolId} {tys : List Ty} {next : Nat}
    (h : List.Forall₂ (Typed.IsVariable symbols) ids tys)
    (hparams : ∀ (i : Nat) ty, tys[i]? = some ty →
      ∃ name, frame.params[next + i]? = some (name, ty.shape)) (types : List IR.Ty) :
    Types fits frame symbols types (Lowering.params symbols next ids) fun _ _ => True := by
  induction h generalizing next types with
  | nil => exact pure trivial
  | @cons id ty _ _ hid _ ih =>
    obtain ⟨symbol, hsymbol, -, rfl⟩ := hid
    obtain ⟨_, hname⟩ := hparams 0 symbol.ty rfl
    refine (reserve _).bind fun t1 slot _ hslot => ?_
    have hvalue : IR.Value.Suits fits frame t1 (.param next) (symbols.symbolAt id).ty.shape := by
      rw [symbolAt_eq hsymbol]
      exact IR.Value.HasType.suits (.param hname) (by simp)
    refine (storeSlot hslot hvalue).bind fun t2 _ h2 _ => ?_
    refine (bindSlot (IR.getElem?_mono h2 hslot)).bind fun t3 _ _ _ => ?_
    refine ih (fun i ty hty => ?_) t3
    rw [Nat.add_assoc, Nat.add_comm 1 i]
    exact hparams (i + 1) ty hty

theorem body {returnType : Ty} {known : List SymbolId} {body : Typed.Body}
    (hrenders : Lowering.Renders symbols frame.module) (hsymbols : symbols.Canonical)
    (hret : frame.ret = returnType.shape) (h : body.WellTyped symbols returnType)
    (hscoped : body.WellScoped symbols known)
    (hliterals : ∀ e ∈ body.exprs, e.LiteralIn fits) (types : List IR.Ty) :
    Types fits frame symbols types (Lowering.body symbols returnType.isVoid body)
      fun _ _ => True := by
  cases body with
  | empty => exact pure trivial
  | block stmts _ =>
    refine Typed.Stmt.types_lowerBlock hrenders hsymbols hret stmts h hscoped ?_ types
    intro stmt hstmt s hs operand hoperand e he
    exact hliterals e (Typed.Body.mem_exprs_block.mpr ⟨stmt, hstmt, s, hs, operand, hoperand, he⟩)
  | expression _ =>
    refine (Typed.Expr.types_lowerValue hrenders hsymbols h.1 hscoped hliterals types).bind
      fun t1 v _ hv => close ?_
    split
    · rename_i hvoid
      refine ⟨?_, trivial⟩
      rw [IR.Terminator.WellTyped, hret, Ty.eq_void_of_isVoid hvoid, Ty.shape]
    · rw [h.2, ← hret] at hv
      exact ⟨hv.hasType, hv.fits⟩

end Lower.Types

variable {fits : Int → IR.Ty → Prop} {g : IR.Function} {m : IR.Module} {trees : List SyntaxTree}

theorem Lowering.Defines.suits {symbols : SymbolTable} {f : Typed.Function} {signature : Signature}
    (h : Defines symbols f signature g) (hrenders : Renders symbols m)
    (hsymbols : symbols.Canonical)
    (hparams : List.Forall₂ (Typed.IsVariable symbols) f.params signature.paramTypes)
    (hbody : f.body.WellTyped symbols signature.returnType) (hscoped : f.WellScoped symbols)
    (hliterals : ∀ e ∈ f.body.exprs, e.LiteralIn fits) :
    ∃ types, ∀ block ∈ g.blocks, block.Suits fits ⟨m, g.params, g.ret⟩ types := by
  obtain ⟨b, hcode, hcomplete⟩ := blocks_eq_ok h.blocks_eq
  have htyped : Lower.Types fits ⟨m, g.params, g.ret⟩ symbols []
      (code symbols signature.returnType.isVoid f) fun _ _ => True := by
    refine (Lower.Types.params hparams (fun i ty hty => ?_) []).bind fun types _ _ _ =>
      Lower.Types.body hrenders hsymbols h.ret_eq hbody hscoped hliterals types
    rw [Signature.paramTypes, List.getElem?_map] at hty
    obtain ⟨param, hparam, rfl⟩ := Option.map_eq_some_iff.mp hty
    refine ⟨param.1, ?_⟩
    simp only [h.params_eq, namedShapes, Nat.zero_add, List.getElem?_map, hparam]
    rfl
  obtain ⟨types, -, hb, -⟩ := htyped (.start _ _ _) hcode
  refine ⟨types, fun block hblock => ?_⟩
  unfold complete at hcomplete
  split at hcomplete
  · rename_i hvoid
    rw [← Except.ok.inj hcomplete] at hblock
    obtain ⟨old, hold, rfl⟩ := List.mem_map.mp hblock
    unfold closeOpen
    split
    · exact hb.blocks old hold
    · refine (hb.blocks old hold).close ⟨?_, trivial⟩
      rw [IR.Terminator.WellTyped, h.ret_eq, Ty.eq_void_of_isVoid hvoid, Ty.shape]
  · split at hcomplete
    · rw [← Except.ok.inj hcomplete] at hblock
      exact hb.blocks block hblock
    · cases hcomplete

/-- A function with code, of the module of an accepted program, is what a function of the program is
lowered to. If the literals of that one fit, so do the constants in the code. -/
theorem Lowering.suits_of_mem_functions {keepGoing : Bool} {p : Typed.Program} {name : String}
    (hcheck : (checkProgram keepGoing trees).program = some p) (hlower : p.lower name = .ok m)
    (hliterals : ∀ f, .function f ∈ p.decls → ∀ e ∈ f.body.exprs, e.LiteralIn fits)
    (hg : g ∈ m.functions) :
    ∃ types, ∀ block ∈ g.blocks, block.Suits fits ⟨m, g.params, g.ret⟩ types := by
  obtain ⟨hcanonical, hscoped⟩ := accepted_wellScoped hcheck
  have hrenders := Lowering.renders_of_lower (accepted_places hcheck) hcanonical hlower
  obtain ⟨f, hf, _, hsignature, hdefines⟩ := Lowering.defines_of_mem_functions hlower hg
  obtain ⟨_, hwell⟩ := (accepted_wellTyped hcheck).2 f hf
  obtain ⟨symbol, hsymbol, -, hsignature'⟩ := hwell.symbol
  rw [symbolAt_eq hsymbol] at hsignature
  cases hsignature.symm.trans hsignature'
  exact hdefines.suits hrenders hcanonical hwell.params hwell.body (hscoped f hf) (hliterals f hf)

theorem Lowering.wellTyped_of_mem_functions {keepGoing : Bool} {p : Typed.Program} {name : String}
    (hcheck : (checkProgram keepGoing trees).program = some p) (hlower : p.lower name = .ok m)
    (hg : g ∈ m.functions) : g.WellTyped m := by
  have hliterals : ∀ e : Typed.Expr, e.LiteralIn fun _ _ => True := fun e => by
    cases e <;> trivial
  obtain ⟨types, hsuits⟩ :=
    Lowering.suits_of_mem_functions hcheck hlower (fun _ _ e _ => hliterals e) hg
  exact ⟨types, fun block hblock => (hsuits block hblock).wellTyped⟩

/-- The functions of a module that an accepted program is lowered to are well typed: there are types
for the registers under which every instruction and every end of a block finds what it works on. So
every argument that the code refers to is one of the function's. -/
theorem accepted_lower_wellTyped {keepGoing : Bool} {trees : List SyntaxTree} {p : Typed.Program}
    {name : String} {m : IR.Module} (hcheck : (checkProgram keepGoing trees).program = some p)
    (hlower : p.lower name = .ok m) :
    ∀ g ∈ m.functions, g.WellTyped m ∧
      ∀ block ∈ g.blocks, ∀ place, .param place ∈ block.operands → place < g.params.length := by
  intro g hg
  have hwell := Lowering.wellTyped_of_mem_functions hcheck hlower hg
  refine ⟨hwell, fun block hblock place hplace => ?_⟩
  obtain ⟨types, htypes⟩ := hwell
  obtain ⟨ty, hty⟩ := (htypes block hblock).operand hplace
  exact hty.param_lt

theorem accepted_lower_wellTyped_counter :
    ∃ p m g, (checkProgram false [.counter]).program = some p ∧ p.lower "counter" = .ok m ∧
      g ∈ m.functions ∧ g.WellTyped m ∧
      ∀ block ∈ g.blocks, ∀ place, .param place ∈ block.operands → place < g.params.length := by
  have hany : ((checkProgram false [.counter]).program.any fun p =>
      (p.lower "counter").toOption.any fun m => m.functions.any fun _ => true) = true := by
    decide +kernel
  obtain ⟨p, hp, hany⟩ := (Option.any_eq_true _ _).mp hany
  obtain ⟨m, hm, hany⟩ := (Option.any_eq_true _ _).mp hany
  obtain ⟨g, hg, -⟩ := List.any_eq_true.mp hany
  have hlower : p.lower "counter" = .ok m := by
    cases h : p.lower "counter" with
    | error fault =>
      rw [h] at hm
      cases hm
    | ok m' =>
      rw [h] at hm
      cases hm
      rfl
  exact ⟨p, m, g, hp, hlower, hg, accepted_lower_wellTyped hp hlower g hg⟩

end Laye
