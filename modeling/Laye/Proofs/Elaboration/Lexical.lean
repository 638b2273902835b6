import Laye.Proofs.Elaboration.Gathering
import Laye.Proofs.Elaboration.Program
import Mathlib.Data.List.Nodup

/-!
# Names stand for what lexical scoping selects

The checker gives a new symbol to each parameter and each declared variable, in the order of the
text, dead code included: the ids that a statement introduces are those of the symbols that its
check adds (`gathers_symbols`). So the variables of an accepted program are what it introduces
(`accepted_mem_introduced`), each of them once.

The names of the open scopes are the surroundings, so what the checker finds for a name is what
lexical scoping selects (`Reading.lexical_allows`). `accepted_lexical` puts both together.
-/

namespace Laye

/-! ### New symbols -/

namespace SymbolTable

/-- The symbols that are new have these ids, in order. -/
def GrowsBy (symbols symbols' : SymbolTable) (ids : List SymbolId) : Prop :=
  ∃ added : SymbolTable, symbols' = symbols ++ added ∧
    ids = List.range' symbols.length added.length

namespace GrowsBy

variable {symbols symbols' symbols'' : SymbolTable} {ids ids' : List SymbolId}

theorem refl (symbols : SymbolTable) : symbols.GrowsBy symbols [] := ⟨[], by simp, rfl⟩

theorem append (h : symbols.GrowsBy symbols' ids) (h' : symbols'.GrowsBy symbols'' ids') :
    symbols.GrowsBy symbols'' (ids ++ ids') := by
  obtain ⟨added, rfl, rfl⟩ := h
  obtain ⟨added', rfl, rfl⟩ := h'
  refine ⟨added ++ added', List.append_assoc .., ?_⟩
  rw [List.length_append, List.length_append, List.range'_append_1]

theorem nodup (h : symbols.GrowsBy symbols' ids) : ids.Nodup := by
  obtain ⟨_, -, rfl⟩ := h
  exact List.nodup_range'

theorem mem_iff (h : symbols.GrowsBy symbols' ids) {id : SymbolId} :
    id ∈ ids ↔ symbols.length ≤ id ∧ id < symbols'.length := by
  obtain ⟨_, rfl, rfl⟩ := h
  rw [List.mem_range'_1, List.length_append]

end GrowsBy

end SymbolTable

open SymbolTable (GrowsBy)

namespace Typed.Stmt

/-- The variable that the statement itself declares. -/
def declaredHere : Stmt → List SymbolId
  | .binding symbol _ _ => [symbol]
  | _ => []

mutual

theorem introduced_eq : (s : Stmt) → s.introduced = s.nodes.flatMap declaredHere
  | .block stmts _ | .deadCode stmts _ => introducedAll_eq stmts
  | .conditional _ body none _ | .whileLoop _ body none _ => introduced_eq body
  | .conditional _ body (some elseBody) _ | .whileLoop _ body (some elseBody) _ => by
    unfold introduced nodes
    rw [List.flatMap_cons, List.flatMap_append, introduced_eq body, introduced_eq elseBody]
    rfl
  | .binding _ _ _ | .expression _ | .ret _ _ | .assign _ _ _ | .breakLoop _ | .continueLoop _
  | .yield _ _ => by
    rfl

theorem introducedAll_eq : (stmts : List Stmt) →
    introducedAll stmts = (nodesAll stmts).flatMap declaredHere
  | [] => by
    rfl
  | stmt :: rest => by
    unfold introducedAll nodesAll
    rw [List.flatMap_append, introduced_eq stmt, introducedAll_eq rest]

end

end Typed.Stmt

theorem gathers_symbols : Check.Gathers Typed.Stmt.declaredHere
    fun st st' ids => st.symbols.GrowsBy st'.symbols ids where
  plain t ht := by
    cases t with
    | binding => cases ht
    | _ => rfl
  refl st := .refl st.symbols
  append := GrowsBy.append
  inScope h := h
  declare _ _ h := by
    simp only [Check.declare] at h
    split at h
    · cases h
      exact ⟨_, rfl, rfl⟩
    · cases h
  warn st _ _ := .refl st.symbols

namespace Typing

theorem decl_growsBy {st st' : Progress} {id : SymbolId} {top : TopLevel} {d : Typed.Decl}
    (h : decl id top st = .ok (d, st')) : st.symbols.GrowsBy st'.symbols d.introduced := by
  have hgrows := gathers_symbols.decl h
  cases d with
  | struct | enum => exact hgrows
  | function f =>
    simp only [Typed.Decl.function?, Option.toList_some, List.flatMap_singleton] at hgrows
    have hparams : (f.params.flatMap fun id =>
        Typed.Stmt.declaredHere (.binding id none .nowhere)) = f.params :=
      List.flatMap_singleton' f.params
    rw [hparams] at hgrows
    cases hbody : f.body with
    | block _ _ =>
      rw [Typed.Decl.introduced, Typed.Function.introduced, hbody, Typed.Body.introduced,
        Typed.Stmt.introducedAll_eq]
      rwa [hbody] at hgrows
    | _ =>
      rw [Typed.Decl.introduced, Typed.Function.introduced, hbody]
      rwa [hbody] at hgrows

theorem decls_growsBy {keepGoing : Bool} {rest : List TopLevel} {id : SymbolId} {ctx ctx' : Context}
    {findings : List Finding} {checked : List Typed.Decl}
    (h : decls keepGoing id ctx rest = (findings, some (checked, ctx'))) :
    ctx.symbols.GrowsBy ctx'.symbols (checked.flatMap Typed.Decl.introduced) := by
  induction rest generalizing id ctx findings checked with
  | nil =>
    cases h
    exact .refl _
  | cons _ _ ih =>
    obtain ⟨_, _, _, _, hdecl, hchecked, -, rfl⟩ := decls_cons_eq_some h
    exact (decl_growsBy hdecl).append (ih hchecked)

end Typing

/-! ### Accepted programs -/

variable {trees : List SyntaxTree} {tops : List TopLevel}

variable {keepGoing : Bool} {p : Typed.Program}

theorem accepted_growsBy (h : (checkProgram keepGoing trees).program = some p) :
    ∃ symbols, Declarations.populate (Declarations.ofTrees trees) = .ok symbols ∧
      symbols.GrowsBy p.symbols p.introduced := by
  obtain ⟨_, symbols, _, decls, _, -, hpopulate, hchecked, rfl⟩ :=
    checkProgram_eq_some h
  refine ⟨symbols, hpopulate, ?_⟩
  obtain ⟨hlength, -⟩ := Typing.decls_checksTo hchecked
  rw [Typed.Program.introduced, Typed.Program.decls, Typing.flatMap_roots hlength]
  exact Typing.decls_growsBy hchecked

/-- A function of an accepted program introduces each of its variables once. -/
theorem accepted_introduced_nodup (h : (checkProgram keepGoing trees).program = some p)
    {f : Typed.Function} (hf : .function f ∈ p.decls) : f.introduced.Nodup := by
  obtain ⟨_, -, hgrows⟩ := accepted_growsBy h
  exact (List.nodup_flatMap.mp hgrows.nodup).1 _ hf

theorem Declarations.kind_ne_binding {symbols : SymbolTable}
    (hpopulate : populate tops = .ok symbols) {id : SymbolId} {symbol : Symbol}
    (hsymbol : symbols[id]? = some symbol) : symbol.kind ≠ .binding := by
  obtain ⟨hlt, -⟩ := List.getElem?_eq_some_iff.mp hsymbol
  rw [(populate_eq_ok hpopulate).length_eq.symm] at hlt
  obtain ⟨_, hother, his⟩ := symbol_of_decl hpopulate (List.getElem?_eq_getElem hlt)
  cases hsymbol.symm.trans hother
  rw [his.kind_eq]
  cases tops[id] <;> simp [kind]

theorem accepted_mem_introduced (h : (checkProgram keepGoing trees).program = some p)
    (id : SymbolId) :
    id ∈ p.introduced ↔ ∃ symbol, p.symbols[id]? = some symbol ∧ symbol.kind = .binding := by
  obtain ⟨symbols, hpopulate, hgrows⟩ := accepted_growsBy h
  obtain ⟨_, hpopulate', _, hlocals, hkinds⟩ := (accepted_places h).symbols
  cases hpopulate.symm.trans hpopulate'
  rw [hgrows.mem_iff]
  constructor
  · rintro ⟨hge, hlt⟩
    refine ⟨p.symbols[id], List.getElem?_eq_getElem hlt, hkinds _ ?_⟩
    simp only [hlocals, List.getElem_append_right hge]
    exact List.getElem_mem _
  · rintro ⟨symbol, hsymbol, hkind⟩
    refine ⟨?_, (List.getElem?_eq_some_iff.mp hsymbol).1⟩
    -- before the variables there are only declarations
    by_contra hlt
    rw [hlocals, List.getElem?_append_left (Nat.lt_of_not_le hlt)] at hsymbol
    exact Declarations.kind_ne_binding hpopulate hsymbol hkind

theorem Reading.lexical_allows {scopes : ScopeStack}
    (hdeclare : Declarations.declare tops = .ok scopes) (symbols : SymbolTable) :
    (Reading.lexical tops).Allows scopes.globals symbols := by
  intro signature s ctx hs _ name id hid
  have hfind : ctx.scopes.inner.findSome? (fun scope => scope.find? name) = s.find? name := by
    calc ctx.scopes.inner.findSome? (fun scope => scope.find? name)
        = (ctx.scopes.inner.map Scope.names).findSome? (fun names => names.lookup name) := by
          rw [List.findSome?_map]
          rfl
      _ = s.find? name := by
          -- the parameters are in the outermost of the inner scopes
          rw [hs.names, List.findSome?_append]
          simp [Surroundings.find?]
  rwa [ScopeStack.lookup_eq, hfind, hs.globals_eq, (Declarations.declare_eq_ok hdeclare).2.2] at hid

/-- The variables and names of a program are those of lexical scoping in its files. -/
structure Typed.Program.Lexical (p : Typed.Program) (trees : List SyntaxTree) : Prop where
  /-- A variable is introduced once, as a parameter or by a declaration. -/
  introduced_once : ∀ id symbol, p.symbols[id]? = some symbol → symbol.kind = .binding →
    p.introduced.count id = 1
  /-- Nothing but a variable is introduced. -/
  introduced_binding : ∀ id ∈ p.introduced, ∃ symbol, p.symbols[id]? = some symbol ∧
    symbol.kind = .binding
  /-- Each name stands for what lexical scoping selects. -/
  elaborates : p.Elaborates (.lexical (Declarations.ofTrees trees)) trees

/-- In an accepted program every variable is introduced once, and every name stands for the
declaration that lexical scoping selects. -/
theorem accepted_lexical {keepGoing : Bool} {trees : List SyntaxTree} {p : Typed.Program}
    (h : (checkProgram keepGoing trees).program = some p) : p.Lexical trees := by
  obtain ⟨_, -, hgrows⟩ := accepted_growsBy h
  refine ⟨fun id symbol hsymbol hkind => ?_, fun id => (accepted_mem_introduced h id).mp, ?_⟩
  · have hmem := (accepted_mem_introduced h id).mpr ⟨symbol, hsymbol, hkind⟩
    exact List.count_eq_one_of_mem hgrows.nodup hmem
  · exact accepted_elaborates_of_allows h fun _ hdeclare => Reading.lexical_allows hdeclare _

theorem accepted_lexical_lamp :
    ∃ p, (checkProgram false [.lamp]).program = some p ∧ p.introduced.length = 6 ∧
      p.Lexical [.lamp] := by
  have haccepted : ((checkProgram false [.lamp]).program.any
      fun p => p.introduced.length == 6) = true := by decide +kernel
  obtain ⟨p, hp, hlength⟩ := (Option.any_eq_true _ _).mp haccepted
  exact ⟨p, hp, beq_iff_eq.mp hlength, accepted_lexical hp⟩

end Laye
