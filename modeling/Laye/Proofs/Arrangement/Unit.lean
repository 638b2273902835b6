import Laye.Compilation
import Laye.Proofs.Arrangement.Lowering
import Laye.Proofs.Arrangement.Statement
import Laye.Proofs.Typing.Places
import Mathlib.Data.List.Perm.Basic

/-!
# The order of declarations and their files do not matter

Two arrangements of the same declarations, in another order or in other files, build the same module
up to order, or neither builds one (`Compilation.build_rearranges`).

Both are compared with one arrangement in which the declarations have no spans. `Moved` says which
ids stand for the same symbol there: those of a declaration and of the same declaration without
spans, and those of the variables that are declared after. Along it the contexts are alike
(`Rearranged.alike`), so a declaration passes the check in one exactly if it does in the other, and
adds the same part to the module (`Rearranged.decl_cases`). A unit therefore builds the module that
is made of these parts, one for each of its declarations (`Rearranged.build_module`).
-/

namespace Laye

open SymbolTable (symbolAt_eq)
open Declarations (Starts declare_eq_ok ofTrees place_eq symbol_of_decl)

/-! ### Corresponding ids -/

variable {id : SymbolId} {top : TopLevel}

/-- The ids stand for the same symbol: for a declaration of the one unit and the same declaration
without spans in the other, or for variables that are declared after as many others, from `n` and
`n'` on. -/
def Moved (tops tops' : List TopLevel) (n n' : Nat) (id id' : SymbolId) : Prop :=
  (∃ top : TopLevel, tops[id]? = some top ∧ tops'[id']? = some top.bare) ∨
    ∃ k, id = n + k ∧ id' = n' + k

variable {tops tops' : List TopLevel} {keepGoing : Bool} {name : String} {trees : List SyntaxTree}
  {m : IR.Module}

theorem Moved.pairsOff {n n' : Nat} (hnames : (tops.map (·.name.name)).Nodup)
    (hnames' : (tops'.map (·.name.name)).Nodup) (hn : tops.length ≤ n) (hn' : tops'.length ≤ n') :
    PairsOff (Moved tops tops' n n') := by
  have hlt : ∀ {list : List TopLevel} {i : Nat} {top : TopLevel}, list[i]? = some top →
      i < list.length := fun h => (List.getElem?_eq_some_iff.mp h).1
  rintro a a' b b' (⟨top, ha, ha'⟩ | ⟨k, rfl, rfl⟩) (⟨other, hb, hb'⟩ | ⟨j, rfl, rfl⟩)
  · constructor
    · rintro rfl
      cases ha.symm.trans hb
      exact place_eq hnames' ha' hb' rfl
    · rintro rfl
      have hbare : top.bare = other.bare := Option.some.inj (ha'.symm.trans hb')
      refine place_eq hnames ha hb ?_
      rw [← TopLevel.name_bare, hbare, TopLevel.name_bare]
  · have hlt1 := hlt ha
    have hlt2 := hlt ha'
    simp only [SymbolId] at *
    omega
  · have hlt1 := hlt hb
    have hlt2 := hlt hb'
    simp only [SymbolId] at *
    omega
  · simp only [SymbolId] at *
    omega

/-! ### Corresponding units -/

/-- The declarations of one unit, without spans and in some order, are those of the other, and both
units get past their declarations. -/
structure Rearranged (tops tops' : List TopLevel) (start start' : Context) : Prop where
  perm : (tops.map TopLevel.bare).Perm tops'
  starts : Starts tops start
  starts' : Starts tops' start'

/-- The context can be reached from another by checking functions. -/
structure Context.Reaches (start ctx : Context) : Prop where
  scopes_eq : ctx.scopes = start.scopes
  symbols : start.symbols.Extends ctx.symbols
  sound : ctx.Sound

namespace Rearranged

variable {tops tops' : List TopLevel} {start start' ctx : Context}

section

variable (h : Rearranged tops tops' start start')
include h

theorem exists_place (htop : top ∈ tops) : ∃ id' : SymbolId, tops'[id']? = some top.bare := by
  have hmem := h.perm.mem_iff.mp (List.mem_map_of_mem htop)
  obtain ⟨i, hi, hget⟩ := List.getElem_of_mem hmem
  exact ⟨i, hget ▸ List.getElem?_eq_getElem hi⟩

theorem globals (name : String) (n n' : Nat) :
    Option.Rel (Moved tops tops' n n') (start.scopes.globals.find? name)
      (start'.scopes.globals.find? name) := by
  rw [(declare_eq_ok h.starts.declare).2.2,
    (declare_eq_ok h.starts'.declare).2.2]
  cases hfind : tops.findIdx? (·.name.name == name) with
  | some _ =>
    obtain ⟨hlt, hname, -⟩ := List.findIdx?_eq_some_iff_getElem.mp hfind
    obtain ⟨_, hid'⟩ := h.exists_place (List.getElem_mem hlt)
    have hfind' := Declarations.findIdx?_of_nodup h.starts'.nodup hid'
    rw [TopLevel.name_bare, beq_iff_eq.mp hname] at hfind'
    rw [hfind']
    exact .some (.inl ⟨_, List.getElem?_eq_getElem hlt, hid'⟩)
  | none =>
    have hfind' : tops'.findIdx? (·.name.name == name) = none := by
      refine List.findIdx?_eq_none_iff.mpr fun top' htop' => ?_
      obtain ⟨top, htop, rfl⟩ := List.mem_map.mp (h.perm.mem_iff.mpr htop')
      simpa using List.findIdx?_eq_none_iff.mp hfind top htop
    rw [hfind']
    exact .none

theorem pairsOff (hctx : start.Reaches ctx) :
    PairsOff (Moved tops tops' ctx.symbols.length start'.symbols.length) := by
  have hlength : tops.length ≤ ctx.symbols.length := by
    obtain ⟨_, hadded, -⟩ := hctx.symbols
    rw [hadded, List.length_append, (Declarations.populate_eq_ok h.starts.populate).length_eq]
    exact Nat.le_add_right _ _
  have hlength' : tops'.length ≤ start'.symbols.length :=
    Nat.le_of_eq (Declarations.populate_eq_ok h.starts'.populate).length_eq
  exact Moved.pairsOff h.starts.nodup h.starts'.nodup hlength hlength'

theorem alike (hctx : start.Reaches ctx) :
    ctx.Alike (Moved tops tops' ctx.symbols.length start'.symbols.length) start' := by
  refine ⟨⟨?_, fun k => .inr ⟨k, rfl, rfl⟩⟩, ?_, ⟨?_, ?_⟩⟩
  · rintro id id' (⟨top, htop, htop'⟩ | ⟨k, rfl, rfl⟩)
    · obtain ⟨_, hsymbol, his⟩ := symbol_of_decl h.starts.populate htop
      obtain ⟨_, hsymbol', his'⟩ := symbol_of_decl h.starts'.populate htop'
      rw [symbolAt_eq (hctx.symbols.getElem? hsymbol), symbolAt_eq hsymbol']
      refine ⟨?_, ?_, ?_⟩
      · rw [his.name_eq, his'.name_eq, TopLevel.name_bare]
      · rw [his.kind_eq, his'.kind_eq, Declarations.kind_bare]
      · obtain ⟨_, hty, heq⟩ :=
          (Declarations.alike_typeOf h.starts.nodup h.perm top).exists_right his.type
        cases hty.symm.trans his'.type
        exact heq
    · rw [SymbolTable.symbolAt_add, SymbolTable.symbolAt_add]
      exact ⟨rfl, rfl, rfl⟩
  · rw [hctx.scopes_eq, (declare_eq_ok h.starts.declare).1,
      (declare_eq_ok h.starts'.declare).1]
    exact .nil
  · intro name
    rw [hctx.scopes_eq]
    exact h.globals name _ _
  · rw [hctx.scopes_eq, h.starts.function_eq, h.starts'.function_eq]
    exact .none

end

end Rearranged

/-! ### One declaration -/

/-- Checked before the others, at its place in the unit, the declaration passes and adds the
part. -/
def Yields (tops : List TopLevel) (start : Context) (top : TopLevel) (part : IR.Module) : Prop :=
  ∃ (id : SymbolId) (d : Typed.Decl) (s : Progress), tops[id]? = some top ∧
    Typing.decl id top ⟨start, []⟩ = .ok (d, s) ∧ Lowering.Adds s.symbols d part

/-- A checked declaration leaves nothing but its variables behind, and later variables do not change
what it adds to a module. -/
theorem Context.Reaches.decl {start ctx : Context} {s : Progress} {d : Typed.Decl}
    (hstarts : Starts tops start) (hctx : start.Reaches ctx) (htop : tops[id]? = some top)
    (hdecl : Typing.decl id top ⟨ctx, []⟩ = .ok (d, s)) :
    start.Reaches s.toContext ∧ ctx.symbols.Extends s.symbols ∧
      ∀ symbols, s.symbols.Extends symbols → ∀ m,
        Lowering.addDecl symbols m d = Lowering.addDecl s.symbols m d := by
  cases top with
  | struct _ =>
    cases hdecl
    refine ⟨hctx, .refl _, fun symbols hsymbols m => ?_⟩
    obtain ⟨_, hsymbol, -⟩ := symbol_of_decl hstarts.populate htop
    have hsymbol := hctx.symbols.getElem? hsymbol
    simp only [Lowering.addDecl, symbolAt_eq hsymbol,
      symbolAt_eq (hsymbols.getElem? hsymbol)]
  | enum _ =>
    cases hdecl
    exact ⟨hctx, .refl _, fun _ _ _ => rfl⟩
  | function decl =>
    obtain ⟨f, _, hf, hdecl⟩ := Check.bind_eq_ok.mp hdecl
    cases hdecl
    have hfunction :=
      (Declarations.isFunction_of_populate hstarts.populate id decl htop).mono hctx.symbols
    obtain ⟨hsound, hscopes, hextends, _, hwell⟩ :=
      Typing.function_wellTyped hctx.sound hfunction hf
    exact ⟨⟨hscopes.trans hctx.scopes_eq, hctx.symbols.trans hextends, hsound⟩, hextends,
      fun symbols hsymbols m => Lowering.addFunction_eq hsymbols.isPrefix m (hwell _ (.refl _))⟩

namespace Rearranged

variable {tops tops' : List TopLevel} {start start' ctx : Context}

theorem decl_cases (h : Rearranged tops tops' start start') (hctx : start.Reaches ctx)
    (htop : tops[id]? = some top) :
    (∃ refusal, Typing.decl id top ⟨ctx, []⟩ = .error refusal ∧
      ∀ part, ¬Yields tops' start' top.bare part) ∨
    ∃ d s, Typing.decl id top ⟨ctx, []⟩ = .ok (d, s) ∧ start.Reaches s.toContext ∧
      ctx.symbols.Extends s.symbols ∧
      ∀ symbols, s.symbols.Extends symbols → ∀ part,
        Lowering.Adds symbols d part ↔ Yields tops' start' top.bare part := by
  have hpairs := h.pairsOff hctx
  obtain ⟨id', htop'⟩ := h.exists_place (List.mem_of_getElem? htop)
  have hcheck := Typing.alike_decl hpairs (.inl ⟨top, htop, htop'⟩) top ⟨ctx, []⟩ ⟨start', []⟩
    ⟨h.alike hctx, rfl⟩
  cases hdecl : Typing.decl id top ⟨ctx, []⟩ with
  | error refusal =>
    refine .inl ⟨refusal, rfl, ?_⟩
    rintro part ⟨other, d', s', hother, hdecl', -⟩
    cases place_eq h.starts'.nodup htop' hother rfl
    obtain ⟨_, hok, -⟩ := hcheck.exists_left hdecl'
    cases hdecl.symm.trans hok
  | ok r =>
    obtain ⟨d, s⟩ := r
    obtain ⟨⟨d', s'⟩, hdecl', halike, hs⟩ := hcheck.exists_right hdecl
    obtain ⟨hreaches, hextends, hadd⟩ := hctx.decl h.starts htop hdecl
    refine .inr ⟨d, s, rfl, hreaches, hextends, fun symbols hsymbols part => ?_⟩
    have hparts := Lowering.alike_addDecl hpairs hs.context.symbols (.empty "") halike
    rw [Lowering.Adds, hadd symbols hsymbols]
    constructor
    · intro hpart
      obtain ⟨_, hpart', rfl⟩ := hparts.exists_right hpart
      exact ⟨id', d', s', htop', hdecl', hpart'⟩
    · rintro ⟨other, d'', s'', hother, hdecl'', hpart⟩
      cases place_eq h.starts'.nodup htop' hother rfl
      cases hdecl'.symm.trans hdecl''
      obtain ⟨_, hpart', rfl⟩ := hparts.exists_left hpart
      exact hpart'

/-! ### A unit -/

/-- The declarations of a unit are refused because one yields nothing, or they pass and add what
they yield. -/
theorem decls_cases (h : Rearranged tops tops' start start') (keepGoing : Bool)
    {rest : List TopLevel} (hctx : start.Reaches ctx)
    (hrest : ∀ (i : Nat) top, rest[i]? = some top → tops[id + i]? = some top) :
    ((Typing.decls keepGoing id ctx rest).2 = none ∧
      ∃ top ∈ rest, ∀ part, ¬Yields tops' start' top.bare part) ∨
    ∃ checked ctx', (Typing.decls keepGoing id ctx rest).2 = some (checked, ctx') ∧
      ctx.symbols.Extends ctx'.symbols ∧
      ∀ symbols, ctx'.symbols.Extends symbols → List.Forall₂ (fun top d => ∀ part,
        Lowering.Adds symbols d part ↔ Yields tops' start' top.bare part) rest checked := by
  induction rest generalizing id ctx with
  | nil => exact .inr ⟨[], ctx, rfl, .refl _, fun _ _ => .nil⟩
  | cons first rest ih =>
    unfold Typing.decls
    rcases h.decl_cases hctx (hrest 0 first rfl) with
      ⟨refusal, hdecl, hnone⟩ | ⟨d, s, hdecl, hreaches, hextends, hadds⟩
    · rw [Nat.add_zero] at hdecl
      rw [hdecl]
      exact .inl ⟨rfl, first, by simp, hnone⟩
    · rw [Nat.add_zero] at hdecl
      rw [hdecl]
      have hrest' : ∀ (i : Nat) top, rest[i]? = some top → tops[id + 1 + i]? = some top := by
        intro i top htop
        have hplace := hrest (i + 1) top (by simpa using htop)
        rwa [Nat.add_assoc, Nat.add_comm 1 i]
      rcases ih hreaches hrest' with
        ⟨hrun, top, htop, hnone⟩ | ⟨checked, ctx', hrun, hextends', hall⟩
      · refine .inl ⟨by simp [hrun], top, by simp [htop], hnone⟩
      · refine .inr ⟨d :: checked, ctx', by simp [hrun], hextends.trans hextends', ?_⟩
        intro symbols hsymbols
        exact .cons (hadds symbols (hextends'.trans hsymbols)) (hall symbols hsymbols)

end Rearranged

theorem Compilation.build_module :
    (build keepGoing name trees).module = some m ↔
      ∃ p, (checkProgram keepGoing trees).program = some p ∧ p.lower name = .ok m := by
  simp only [build, check]
  cases (checkProgram keepGoing trees).program with
  | none => simp
  | some p =>
    cases hlower : p.lower name with
    | error _ | ok _ => simp [hlower]

theorem forall₂_congr_left {α β γ : Type} {A : β → γ → Prop} {B : α → γ → Prop} {as : List α}
    {bs : List β} (h : List.Forall₂ (fun a b => ∀ c, A b c ↔ B a c) as bs) (cs : List γ) :
    List.Forall₂ A bs cs ↔ List.Forall₂ B as cs := by
  induction h generalizing cs with
  | nil => simp
  | cons hab _ ih => simp only [List.forall₂_cons_left_iff, hab, ih]

theorem Rearranged.build_module {start start' : Context}
    (h : Rearranged (ofTrees trees) tops' start start') :
    (Compilation.build keepGoing name trees).module = some m ↔
      ∃ parts, List.Forall₂ (Yields tops' start') ((ofTrees trees).map TopLevel.bare)
        parts ∧ m = .ofParts name parts := by
  have hprogram : (checkProgram keepGoing trees).program =
      (Typing.decls keepGoing 0 start (ofTrees trees)).2.map
        fun r => ⟨Typing.roots trees r.1, r.2.symbols⟩ := by
    simp only [checkProgram, h.starts.declare, h.starts.populate]
  have hreaches : start.Reaches start :=
    ⟨rfl, .refl _, Declarations.sound_context h.starts.declare h.starts.populate⟩
  have hplaces : ∀ (i : Nat) top, (ofTrees trees)[i]? = some top →
      (ofTrees trees)[0 + i]? = some top := by
    simp
  simp only [Compilation.build_module, hprogram, List.forall₂_map_left_iff]
  rcases h.decls_cases keepGoing hreaches hplaces with
    ⟨hrun, top, htop, hnone⟩ | ⟨checked, ctx', hrun, -, hall⟩
  · rw [hrun]
    constructor
    · rintro ⟨p, hp, -⟩
      cases hp
    · rintro ⟨parts, hparts, -⟩
      obtain ⟨hlength, hyields⟩ := List.forall₂_iff_get.mp hparts
      obtain ⟨i, hi, rfl⟩ := List.getElem_of_mem htop
      exact absurd (hyields i hi (hlength ▸ hi)) (hnone _)
  · have hall := hall ctx'.symbols (.refl _)
    rw [hrun]
    simp only [Option.map_some, Option.some.injEq, exists_eq_left', Typed.Program.lower_eq_ok,
      Typed.Program.decls, Typing.flatMap_roots hall.length_eq.symm, forall₂_congr_left hall]

/-! ### Two arrangements -/

/-- The units hold the same declarations, in whatever order and whatever files. Where a declaration
says that it was read is no part of it. -/
def SyntaxTree.Rearranges (trees trees' : List SyntaxTree) : Prop :=
  ((ofTrees trees).map TopLevel.bare).Perm
    ((ofTrees trees').map TopLevel.bare)

/-- The modules have one name and hold the same structs, external functions and functions, up to
their order. -/
structure IR.Module.SameUpToOrder (m m' : IR.Module) : Prop where
  name_eq : m.name = m'.name
  structs : m.structs.Perm m'.structs
  externals : m.externals.Perm m'.externals
  functions : m.functions.Perm m'.functions

theorem IR.Module.ofParts_perm (name : String) {parts parts' : List IR.Module}
    (h : parts.Perm parts') : (ofParts name parts).SameUpToOrder (ofParts name parts') :=
  ⟨rfl, h.flatMap_right _, h.flatMap_right _, h.flatMap_right _⟩

theorem Declarations.exists_starts_of_build
    (h : (Compilation.build keepGoing name trees).module = some m) :
    ∃ start, Starts (ofTrees trees) start := by
  obtain ⟨p, hp, -⟩ := Compilation.build_module.mp h
  obtain ⟨globals, symbols, -, -, -, hdeclare, hpopulate, -⟩ := checkProgram_eq_some hp
  exact ⟨⟨symbols, globals⟩, hdeclare, hpopulate⟩

theorem Compilation.exists_build_of_rearranges {trees' : List SyntaxTree}
    (h : SyntaxTree.Rearranges trees trees') (hm : (build keepGoing name trees).module = some m) :
    ∃ m', (build keepGoing name trees').module = some m' ∧ m.SameUpToOrder m' := by
  -- both are compared with the declarations of the first, in their order but without spans
  have hperm := List.Perm.refl ((ofTrees trees).map TopLevel.bare)
  obtain ⟨start, hstart⟩ := Declarations.exists_starts_of_build hm
  obtain ⟨bare, hbare⟩ := (Declarations.exists_starts_of_perm hperm).mp ⟨start, hstart⟩
  obtain ⟨start', hstart'⟩ := (Declarations.exists_starts_of_perm h.symm).mpr ⟨bare, hbare⟩
  have hfirst : Rearranged _ _ start bare := ⟨hperm, hstart, hbare⟩
  have hsecond : Rearranged _ _ start' bare := ⟨h.symm, hstart', hbare⟩
  obtain ⟨_, hparts, rfl⟩ := hfirst.build_module.mp hm
  obtain ⟨parts', hparts', hpartsPerm⟩ := List.perm_comp_forall₂ h.symm hparts
  exact ⟨_, hsecond.build_module.mpr ⟨parts', hparts', rfl⟩,
    IR.Module.ofParts_perm name hpartsPerm.symm⟩

/-- The order of the declarations of a unit and the files they stand in do not matter: two
arrangements both build a module or neither does, and the modules are the same up to order. -/
theorem Compilation.build_rearranges {keepGoing : Bool} {name : String}
    {trees trees' : List SyntaxTree} (h : SyntaxTree.Rearranges trees trees') :
    ((build keepGoing name trees).module.isSome ↔ (build keepGoing name trees').module.isSome) ∧
      ∀ m m', (build keepGoing name trees).module = some m →
        (build keepGoing name trees').module = some m' → m.SameUpToOrder m' := by
  constructor
  · simp only [Option.isSome_iff_exists]
    constructor
    · rintro ⟨m, hm⟩
      obtain ⟨m', hm', -⟩ := exists_build_of_rearranges h hm
      exact ⟨m', hm'⟩
    · rintro ⟨m', hm'⟩
      obtain ⟨m, hm, -⟩ := exists_build_of_rearranges h.symm hm'
      exact ⟨m, hm⟩
  · intro m m' hm hm'
    obtain ⟨other, hother, hsame⟩ := exists_build_of_rearranges h hm
    cases hother.symm.trans hm'
    exact hsame

/-- A struct and the function that works on it, the other way round and each in a file of its
own. -/
theorem Compilation.build_rearranges_counter :
    let split : List SyntaxTree := SyntaxTree.counter.decls.reverse.map fun top => ⟨"part", [top]⟩
    SyntaxTree.Rearranges [.counter] split ∧
      ∃ m m', (build false "counter" [.counter]).module = some m ∧
        (build false "counter" split).module = some m' ∧ m.SameUpToOrder m' := by
  intro split
  have hperm : SyntaxTree.Rearranges [.counter] split :=
    (List.reverse_perm SyntaxTree.counter.decls).symm.map _
  obtain ⟨hiff, hsame⟩ := @build_rearranges false "counter" _ _ hperm
  have hsome : (build false "counter" [.counter]).module.isSome = true := by decide +kernel
  obtain ⟨m, hm⟩ := Option.isSome_iff_exists.mp hsome
  obtain ⟨m', hm'⟩ := Option.isSome_iff_exists.mp (hiff.mp hsome)
  exact ⟨hperm, m, m', hm, hm', hsame m m' hm hm'⟩

end Laye
