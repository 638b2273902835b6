import Laye.Proofs.Typing.Soundness

/-!
# Checked declarations stand where they were declared

The symbol of a declaration is the one at its place, and checking keeps the places:
`accepted_places` relates the declarations of an accepted program one by one to those of the files,
and its symbols to the types of the declarations. Two functions of one name are one
(`Places.symbol_eq_of_name_eq`).
-/

namespace Laye

open Declarations (ofTrees)

namespace Typing

/-- The checked declaration is made of a declaration whose symbol has the id. -/
inductive ChecksTo (id : SymbolId) : TopLevel → Typed.Decl → Prop where
  | struct (decl : StructDecl) : ChecksTo id (.struct decl) (.struct id decl.span)
  | enum (decl : EnumDecl) : ChecksTo id (.enum decl) (.enum id decl.span)
  | function (decl : FunctionDecl) {f : Typed.Function} (hsymbol : f.symbol = id)
      (hname : f.name = decl.name.name) : ChecksTo id (.function decl) (.function f)

theorem checksTo_of_decl {id : SymbolId} {top : TopLevel} {d : Typed.Decl} {s s' : Progress}
    (h : decl id top s = .ok (d, s')) : ChecksTo id top d := by
  cases top with
  | struct decl =>
    cases h
    exact .struct decl
  | enum decl =>
    cases h
    exact .enum decl
  | function decl =>
    obtain ⟨f, _, hf, h⟩ := Check.bind_eq_ok.mp h
    cases h
    obtain ⟨_, _, _, _, _, -, -, rfl, -⟩ := function_eq_ok hf
    exact .function decl rfl rfl

theorem decls_checksTo {keepGoing : Bool} {rest : List TopLevel} {id : SymbolId}
    {ctx ctx' : Context} {findings : List Finding} {checked : List Typed.Decl}
    (h : decls keepGoing id ctx rest = (findings, some (checked, ctx'))) :
    checked.length = rest.length ∧ ∀ (i : Nat) top d, rest[i]? = some top → checked[i]? = some d →
      ChecksTo (id + i) top d := by
  induction rest generalizing id ctx findings checked with
  | nil =>
    cases h
    simp
  | cons _ _ ih =>
    obtain ⟨_, _, _, _, hfirst, hchecked, -, rfl⟩ := decls_cons_eq_some h
    obtain ⟨hlength, hplaces⟩ := ih hchecked
    refine ⟨by simp [hlength], fun i top d htop hd => ?_⟩
    cases i with
    | zero =>
      cases htop
      cases hd
      exact checksTo_of_decl hfirst
    | succ i =>
      have hplace := hplaces i top d (by simpa using htop) (by simpa using hd)
      rwa [Nat.add_assoc, Nat.add_comm 1 i] at hplace

theorem flatMap_roots {trees : List SyntaxTree} {decls : List Typed.Decl}
    (h : decls.length = (ofTrees trees).length) :
    (roots trees decls).flatMap Typed.Root.decls = decls := by
  induction trees generalizing decls with
  | nil =>
    rw [List.eq_nil_of_length_eq_zero h]
    rfl
  | cons tree trees ih =>
    have hlength : (decls.drop tree.decls.length).length =
        (ofTrees trees).length := by
      rw [List.length_drop, h, ofTrees, List.flatMap_cons, List.length_append,
        Nat.add_sub_cancel_left]
      rfl
    rw [roots, List.flatMap_cons, ih hlength, List.take_append_drop]

end Typing

/-- The declarations of a program are those of a unit, at their places. -/
structure Places (tops : List TopLevel) (p : Typed.Program) : Prop where
  names : (tops.map (·.name.name)).Nodup
  length_eq : p.decls.length = tops.length
  checked : ∀ (i : Nat) top d, tops[i]? = some top → p.decls[i]? = some d → Typing.ChecksTo i top d
  symbols : ∃ symbols, Declarations.populate tops = .ok symbols ∧ symbols.Extends p.symbols

/-- An accepted program has one checked declaration in the place of each written one. -/
theorem accepted_places {keepGoing : Bool} {trees : List SyntaxTree} {p : Typed.Program}
    (h : (checkProgram keepGoing trees).program = some p) :
    Places (ofTrees trees) p := by
  obtain ⟨_, symbols, _, decls, ctx, hdeclare, hpopulate, hchecked, hp⟩ :=
    checkProgram_eq_some h
  obtain ⟨hlength, hplaces⟩ := Typing.decls_checksTo hchecked
  have hdecls : p.decls = decls := by
    rw [hp]
    exact Typing.flatMap_roots hlength
  have hsymbols := accepted_forall (P := fun ctx => ctx.Sound ∧ symbols.Extends ctx.symbols)
    (Q := fun _ _ => True) ?_ ?_ h
  · obtain ⟨⟨_, -, hextends⟩, -⟩ := hsymbols
    rw [← hdecls] at hlength hplaces
    exact ⟨(Declarations.declare_eq_ok hdeclare).2.1, hlength, by simpa using hplaces,
      symbols, hpopulate, hextends⟩
  · intro globals' symbols' hdeclare' hpopulate'
    cases hpopulate.symm.trans hpopulate'
    exact ⟨Declarations.sound_context hdeclare' hpopulate, .refl _⟩
  · rintro s s' id decl f ⟨hs, hextends⟩ hdecl hrun
    obtain ⟨hs', -, hextends', -⟩ := Typing.function_wellTyped hs hdecl hrun
    exact ⟨⟨hs', hextends.trans hextends'⟩, hextends', fun _ _ => trivial⟩

namespace Places

variable {tops : List TopLevel} {p : Typed.Program}

theorem top_of_decl (h : Places tops p) {i : Nat} {d : Typed.Decl} (hd : p.decls[i]? = some d) :
    ∃ top, tops[i]? = some top ∧ Typing.ChecksTo i top d := by
  have hi : i < tops.length := h.length_eq ▸ (List.getElem?_eq_some_iff.mp hd).1
  exact ⟨tops[i], List.getElem?_eq_getElem hi, h.checked i _ d (List.getElem?_eq_getElem hi) hd⟩

theorem decl_of_top (h : Places tops p) {i : Nat} {top : TopLevel} (htop : tops[i]? = some top) :
    ∃ d, p.decls[i]? = some d ∧ Typing.ChecksTo i top d := by
  have hi : i < p.decls.length := h.length_eq ▸ (List.getElem?_eq_some_iff.mp htop).1
  exact ⟨p.decls[i], List.getElem?_eq_getElem hi,
    h.checked i top _ htop (List.getElem?_eq_getElem hi)⟩

variable {symbol : Symbol}

section

variable (h : Places tops p) (hmem : symbol ∈ p.symbols)
include h hmem

theorem top_of_symbol (hkind : symbol.kind ≠ .binding) :
    ∃ (i : Nat) (top : TopLevel), tops[i]? = some top ∧ p.symbols[i]? = some symbol ∧
      Declarations.IsSymbol tops top symbol := by
  obtain ⟨symbols, hpopulate, hextends⟩ := h.symbols
  obtain ⟨_, hadded, hbindings⟩ := id hextends
  rw [hadded] at hmem
  rcases List.mem_append.mp hmem with hmem | hmem
  · obtain ⟨i, hi, hget⟩ := List.getElem_of_mem hmem
    have hsymbol : symbols[i]? = some symbol := hget ▸ List.getElem?_eq_getElem hi
    obtain ⟨top, htop, his⟩ := Declarations.decl_of_symbol hpopulate hsymbol
    exact ⟨i, top, htop, hextends.getElem? hsymbol, his⟩
  · exact absurd (hbindings symbol hmem) hkind

theorem function_of_symbol (hkind : symbol.kind = .function) :
    ∃ f, .function f ∈ p.decls ∧ f.name = symbol.name ∧ p.symbols[f.symbol]? = some symbol := by
  obtain ⟨i, _, htop, hsymbol, his⟩ := h.top_of_symbol hmem (by simp [hkind])
  obtain ⟨d, hd, hchecks⟩ := h.decl_of_top htop
  cases hchecks with
  | function _ hid hname =>
    refine ⟨_, List.mem_of_getElem? hd, hname.trans his.name_eq.symm, ?_⟩
    rw [hid]
    exact hsymbol
  | _ =>
    rw [his.kind_eq] at hkind
    cases hkind

theorem struct_of_symbol (hkind : symbol.kind = .struct) :
    ∃ id span fields, .struct id span ∈ p.decls ∧ p.symbols[id]? = some symbol ∧
      symbol.ty = .struct symbol.name [] fields := by
  obtain ⟨i, _, htop, hsymbol, his⟩ := h.top_of_symbol hmem (by simp [hkind])
  obtain ⟨d, hd, hchecks⟩ := h.decl_of_top htop
  cases hchecks with
  | struct _ =>
    obtain ⟨fields, hty⟩ := his.of_struct
    refine ⟨i, _, fields, List.mem_of_getElem? hd, hsymbol, ?_⟩
    rw [his.name_eq]
    exact hty
  | _ =>
    rw [his.kind_eq] at hkind
    cases hkind

end

theorem symbol_eq_of_name_eq (h : Places tops p) {f f' : Typed.Function}
    (hf : .function f ∈ p.decls) (hf' : .function f' ∈ p.decls) (hname : f.name = f'.name) :
    f.symbol = f'.symbol := by
  obtain ⟨i, hi, hget⟩ := List.getElem_of_mem hf
  obtain ⟨j, hj, hget'⟩ := List.getElem_of_mem hf'
  obtain ⟨_, htop, hchecks⟩ := h.top_of_decl (hget ▸ List.getElem?_eq_getElem hi)
  obtain ⟨_, htop', hchecks'⟩ := h.top_of_decl (hget' ▸ List.getElem?_eq_getElem hj)
  cases hchecks with
  | function _ hid hdecl =>
    cases hchecks' with
    | function _ hid' hdecl' =>
      rw [hid, hid']
      exact Declarations.place_eq h.names htop htop' (hdecl.symm.trans (hname.trans hdecl'))

end Places

end Laye
