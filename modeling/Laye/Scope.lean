import Laye.Symbol

/-!
# Lexical scopes

A `ScopeStack` is the global scope and the scopes opened inside it. Each scope knows the place of
the scope around it, its parent. A name is looked up from the innermost scope outward, from parent
to parent; it may hide one of an outer scope but not one of its own. A scope belongs to the function
it was opened for, or else to that of the scope around it. -/

namespace Laye

/-- The place of a scope among the open ones. The global scope is at place 0. -/
abbrev ScopeId : Type := Nat

/-- The names declared in one scope, the place of the scope around it, and the function the scope
belongs to. -/
structure Scope where
  parent : Option ScopeId
  names : List (String × SymbolId)
  function : Option SymbolId
deriving DecidableEq, Repr, Inhabited

namespace Scope

/-- A scope without names. -/
def empty (parent : Option ScopeId) (function : Option SymbolId) : Scope := ⟨parent, [], function⟩

/-- What a name stands for in this scope. -/
def find? (s : Scope) (name : String) : Option SymbolId := s.names.lookup name

/-- The scope with one name more. -/
def insert (s : Scope) (name : String) (id : SymbolId) : Scope :=
  { s with names := (name, id) :: s.names }

/-- Each scope, the innermost first, has the one after it as its parent, and the global scope has
none. -/
def Linked (globals : Scope) : List Scope → Prop
  | [] => globals.parent = none
  | scope :: outer => scope.parent = some outer.length ∧ Linked globals outer

namespace Linked

variable {globals : Scope} {inner : List Scope}

/-- The scopes that are left when inner ones are closed are still linked. -/
theorem drop (h : Linked globals inner) (n : Nat) : Linked globals (inner.drop n) := by
  induction inner generalizing n with
  | nil => simpa using h
  | cons scope outer ih =>
    cases n with
    | zero => exact h
    | succ n => exact ih h.2 n

/-- The parent of the scope at a place is at an earlier one. -/
theorem parent_lt (h : Linked globals inner) {place parent : ScopeId} {scope : Scope}
    (hscope : (globals :: inner.reverse)[place]? = some scope)
    (hparent : scope.parent = some parent) : parent < place := by
  induction inner with
  | nil =>
    cases place with
    | zero => rw [← Option.some.inj hscope, h] at hparent; cases hparent
    | succ place => cases hscope
  | cons newest outer ih =>
    rw [List.reverse_cons, ← List.cons_append, List.getElem?_append] at hscope
    split at hscope
    · exact ih h.2 hscope
    · rename_i hplace
      have hnewest : scope = newest := by simpa using List.mem_of_getElem? hscope
      rw [hnewest, h.1, Option.some.injEq] at hparent
      rw [List.length_cons, List.length_reverse, Nat.not_lt] at hplace
      exact hparent ▸ hplace

end Linked

end Scope

/-- Nested scopes. `inner` holds those inside the global one, the innermost first. -/
@[ext]
structure ScopeStack where
  inner : List Scope
  globals : Scope
  linked : globals.Linked inner
deriving DecidableEq, Repr

namespace ScopeStack

/-- The global scope alone. -/
def start : ScopeStack := ⟨[], Scope.empty none none, rfl⟩

instance : Inhabited ScopeStack := ⟨start⟩

/-- The innermost scope. -/
def current (s : ScopeStack) : Scope := s.inner.headD s.globals

/-- How many scopes there are, the global one included. -/
def depth (s : ScopeStack) : Nat := s.inner.length + 1

/-- Whether no scope is open inside the global one. -/
def isGlobal (s : ScopeStack) : Bool := s.inner.isEmpty

/-- The function whose body the innermost scope is part of. -/
def enclosingFunction (s : ScopeStack) : Option SymbolId := s.current.function

/-- Opens a scope inside the innermost one, for a function if one is given. -/
def push (s : ScopeStack) (function : Option SymbolId) : ScopeStack where
  inner := Scope.empty (some s.inner.length) (function.or s.enclosingFunction) :: s.inner
  globals := s.globals
  linked := ⟨rfl, s.linked⟩

/-- The scopes without the `n` innermost ones. -/
def drop (s : ScopeStack) (n : Nat) : ScopeStack :=
  ⟨s.inner.drop n, s.globals, s.linked.drop n⟩

/-- Closes the innermost scope. The global one stays. -/
def pop (s : ScopeStack) : ScopeStack := s.drop 1

/-- Closes scopes until `depth` are left, or only the global one. -/
def unwindTo (s : ScopeStack) (depth : Nat) : ScopeStack := s.drop (s.depth - max depth 1)

/-- Declares a name in the innermost scope, unless that scope has it already. -/
def add (s : ScopeStack) (name : String) (id : SymbolId) : Option ScopeStack :=
  if (s.current.find? name).isSome then none
  else
    match s with
    | ⟨[], globals, linked⟩ => some ⟨[], globals.insert name id, linked⟩
    | ⟨scope :: outer, globals, linked⟩ => some ⟨scope.insert name id :: outer, globals, linked⟩

/-- The scope at a place. -/
def scopeAt (s : ScopeStack) (place : Fin s.depth) : Scope :=
  (s.globals :: s.inner.reverse).get (place.cast (by simp [depth]))

theorem parent_lt (s : ScopeStack) {place : Fin s.depth} {parent : ScopeId}
    (h : (s.scopeAt place).parent = some parent) : parent < place :=
  s.linked.parent_lt (List.getElem?_eq_getElem _) h

/-- What a name stands for in the scope at a place or, from parent to parent, in one around it. -/
def lookupFrom (s : ScopeStack) (name : String) (place : Fin s.depth) : Option SymbolId :=
  match (s.scopeAt place).find? name with
  | some id => some id
  | none =>
    match h : (s.scopeAt place).parent with
    | some parent => s.lookupFrom name ⟨parent, Nat.lt_trans (s.parent_lt h) place.isLt⟩
    | none => none
termination_by place.val
decreasing_by exact s.parent_lt h

/-- What a name stands for: the nearest declaration, from the innermost scope outward. -/
def lookup (s : ScopeStack) (name : String) : Option SymbolId :=
  s.lookupFrom name ⟨s.inner.length, by simp [depth]⟩

/-- What a name stands for in the global scope. -/
def lookupGlobal (s : ScopeStack) (name : String) : Option SymbolId := s.globals.find? name

/-- What a name stands for in the innermost scope. -/
def lookupLocal (s : ScopeStack) (name : String) : Option SymbolId := s.current.find? name

end ScopeStack

end Laye
