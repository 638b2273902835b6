import Laye.Scope

/-!
# The search for a name

`ScopeStack.lookup` goes from a scope to its parent, by the place that the scope has stored. The
links of the stack (`Scope.Linked`) make this the search through the open scopes in their order, the
innermost first and the global one last (`ScopeStack.lookup_eq`). The other lemmas say what the
operations do to the scopes. -/

namespace Laye

namespace Scope

/-- A name that was added hides no other one. -/
theorem find?_insert (scope : Scope) (name other : String) (id : SymbolId) :
    (scope.insert name id).find? other = if other = name then some id else scope.find? other := by
  by_cases hname : other = name
  · simp [find?, insert, hname]
  · have hne : (other == name) = false := by simpa using hname
    simp [find?, insert, List.lookup_cons, hname, hne]

theorem Linked.of_append {globals : Scope} {opened outer : List Scope}
    (h : globals.Linked (opened ++ outer)) : globals.Linked outer := by
  simpa using h.drop opened.length

end Scope

namespace ScopeStack

variable {s s' : ScopeStack} {name : String} {id : SymbolId}

/-! ### Operations -/

@[simp] theorem inner_push (s : ScopeStack) (function : Option SymbolId) : (s.push function).inner =
    Scope.empty (some s.inner.length) (function.or s.enclosingFunction) :: s.inner :=
  rfl

@[simp] theorem globals_push (s : ScopeStack) (function : Option SymbolId) :
    (s.push function).globals = s.globals :=
  rfl

@[simp] theorem inner_pop (s : ScopeStack) : s.pop.inner = s.inner.tail := List.drop_one

@[simp] theorem globals_pop (s : ScopeStack) : s.pop.globals = s.globals := rfl

/-- In an inner scope, a name is added to that scope alone. -/
theorem add_eq_some (hinner : s.inner ≠ []) (h : s.add name id = some s') :
    ∃ scope outer, ∃ linked : s.globals.Linked (scope.insert name id :: outer),
      s.inner = scope :: outer ∧ s' = ⟨scope.insert name id :: outer, s.globals, linked⟩ := by
  obtain ⟨inner, _, linked⟩ := s
  cases inner with
  | nil => exact absurd rfl hinner
  | cons scope outer =>
    unfold add at h
    split at h
    · cases h
    · cases h
      exact ⟨scope, outer, linked, rfl, rfl⟩

/-- In the global scope, a name is added if it is not there yet. -/
theorem add_of_inner_eq_nil (hinner : s.inner = []) (hfresh : s.globals.find? name = none)
    (id : SymbolId) : ∃ linked : (s.globals.insert name id).Linked [],
      s.add name id = some ⟨[], s.globals.insert name id, linked⟩ := by
  obtain ⟨_, _, linked⟩ := s
  subst hinner
  exact ⟨linked, by simp_all [add, current]⟩

theorem add_eq_none (hinner : s.inner = []) {other : SymbolId}
    (hfind : s.globals.find? name = some other) (id : SymbolId) : s.add name id = none := by
  simp [add, current, hinner, hfind]

/-! ### From parent to parent -/

section

variable {place : Fin s.depth}

/-- The search ends at a scope that has the name. -/
theorem lookupFrom_of_find? (hfind : (s.scopeAt place).find? name = some id) :
    s.lookupFrom name place = some id := by
  unfold lookupFrom
  rw [hfind]

/-- It goes on at the parent of a scope that does not. -/
theorem lookupFrom_of_parent {parent : ScopeId} (hfind : (s.scopeAt place).find? name = none)
    (hparent : (s.scopeAt place).parent = some parent) (hplace : parent < s.depth) :
    s.lookupFrom name place = s.lookupFrom name ⟨parent, hplace⟩ := by
  rw [lookupFrom, hfind]
  dsimp only
  split
  · rename_i _ hother
    cases hparent.symm.trans hother
    rfl
  · rename_i hnone
    cases hparent.symm.trans hnone

/-- A scope without a parent is the last one. -/
theorem lookupFrom_of_root (hparent : (s.scopeAt place).parent = none) :
    s.lookupFrom name place = (s.scopeAt place).find? name := by
  unfold lookupFrom
  split
  · rename_i _ hid
    exact hid.symm
  · rename_i hnone
    split
    · rename_i _ hother
      cases hparent.symm.trans hother
    · exact hnone.symm

end

/-- The scope that has the scopes `outer` around it stands right after them. -/
theorem scopeAt_of_inner {opened outer : List Scope} {scope : Scope}
    (hinner : s.inner = opened ++ scope :: outer) (hplace : outer.length + 1 < s.depth) :
    s.scopeAt ⟨outer.length + 1, hplace⟩ = scope := by
  have hat : (s.globals :: s.inner.reverse)[outer.length + 1]? = some scope := by simp [hinner]
  exact Option.some.inj ((List.getElem?_eq_getElem _).symm.trans hat)

/-- From the place right after the scopes `outer` and the global one, the search goes through
them. -/
theorem lookupFrom_eq {opened outer : List Scope} (hinner : s.inner = opened ++ outer)
    (hplace : outer.length < s.depth) : s.lookupFrom name ⟨outer.length, hplace⟩ =
      (outer.findSome? (·.find? name)).or (s.globals.find? name) := by
  have hlinked : s.globals.Linked outer := .of_append (hinner ▸ s.linked)
  induction outer generalizing opened with
  | nil => exact lookupFrom_of_root hlinked
  | cons scope outer ih =>
    have hscope : s.scopeAt ⟨outer.length + 1, hplace⟩ = scope := scopeAt_of_inner hinner hplace
    rw [List.findSome?_cons]
    cases hfind : scope.find? name with
    | some _ => exact lookupFrom_of_find? (hscope ▸ hfind)
    | none =>
      have hparent : (s.scopeAt ⟨outer.length + 1, hplace⟩).parent = some outer.length := by
        rw [hscope]
        exact hlinked.1
      refine (lookupFrom_of_parent (hscope ▸ hfind) hparent (Nat.lt_of_succ_lt hplace)).trans ?_
      exact ih (hinner.trans (List.append_cons opened scope outer)) _ hlinked.2

/-- The nearest declaration of a name is the first one, from the innermost scope outward. -/
theorem lookup_eq (s : ScopeStack) (name : String) :
    s.lookup name = (s.inner.findSome? (·.find? name)).or (s.globals.find? name) :=
  lookupFrom_eq (List.nil_append _).symm _

end ScopeStack

end Laye
