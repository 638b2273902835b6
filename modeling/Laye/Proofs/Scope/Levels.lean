import Laye.Proofs.Scope.Search
import Mathlib.Data.Finmap

/-!
# A scope stack is a list of finite maps

`Levels` is what a scope stack stands for: a non-empty list of levels, the bottom one first, each
with a finite map from names to symbols and the function it was opened for, if it was opened for
one. Its operations are given on the list alone. A level stores neither the one below it nor its
function, so both a name and the enclosing function are searched for in the list.

`ScopeStack.answers_run`: after any sequence of operations, every question to the scope stack has
the answer that the list gives to it, and a level that is opened, used and closed again leaves no
trace. The two runs are kept in step by `ScopeStack.Stands`, which relates a scope to the level in
its place. A scope has the function of the nearest level that was given one. That the stored parents
lead through the scopes in this order, and that following them ends, is `ScopeStack.lookup_eq`. -/

namespace Laye

/-- The names of one level, and the function that the level was opened for. -/
structure Level where
  names : Finmap fun _ : String => SymbolId
  mark : Option SymbolId

/-- One level or more, the bottom one first. -/
structure Levels where
  toList : List Level
  nonempty : toList ≠ []

namespace Levels

def start : Levels := ⟨[⟨∅, none⟩], by simp⟩

/-- The level that names are added to. -/
def top (l : Levels) : Level := l.toList.getLast l.nonempty

/-- The level that is never closed. -/
def bottom (l : Levels) : Level := l.toList.head l.nonempty

def push (l : Levels) (mark : Option SymbolId) : Levels := ⟨l.toList ++ [⟨∅, mark⟩], by simp⟩

/-- All levels but the top one, which stays if it is the only one. -/
def pop (l : Levels) : Levels :=
  if only : l.toList.dropLast = [] then l else ⟨l.toList.dropLast, only⟩

/-- The bottom `depth` levels, and at least one. -/
def unwindTo (l : Levels) (depth : Nat) : Levels :=
  ⟨l.toList.take (max depth 1), by simp [l.nonempty]⟩

/-- A name more at the top level, unless the name is there. -/
def add (l : Levels) (name : String) (id : SymbolId) : Option Levels :=
  if name ∈ l.top.names then none
  else some ⟨l.toList.dropLast ++ [⟨l.top.names.insert name id, l.top.mark⟩], by simp⟩

/-- The entry of the nearest level that has the name. -/
def lookup (l : Levels) (name : String) : Option SymbolId :=
  l.toList.reverse.findSome? (·.names.lookup name)

/-- The mark of the nearest level that has one. -/
def enclosingFunction (l : Levels) : Option SymbolId := l.toList.reverse.findSome? (·.mark)

end Levels

namespace ScopeStack

/-! ### Operations -/

/-- An operation on nested scopes. -/
inductive Op where
  | new
  | push (function : Option SymbolId)
  | pop
  | unwindTo (depth : Nat)
  | add (name : String) (id : SymbolId)
deriving DecidableEq, Repr

/-- The scopes after an operation. One that is refused changes nothing. -/
def step (s : ScopeStack) : Op → ScopeStack
  | .new => start
  | .push function => s.push function
  | .pop => s.pop
  | .unwindTo depth => s.unwindTo depth
  | .add name id => (s.add name id).getD s

def run (s : ScopeStack) (ops : List Op) : ScopeStack := ops.foldl step s

end ScopeStack

namespace Levels

/-- The levels after an operation. One that is refused changes nothing. -/
def step (l : Levels) : ScopeStack.Op → Levels
  | .new => start
  | .push function => l.push function
  | .pop => l.pop
  | .unwindTo depth => l.unwindTo depth
  | .add name id => (l.add name id).getD l

def run (l : Levels) (ops : List ScopeStack.Op) : Levels := ops.foldl step l

end Levels

namespace ScopeStack

/-! ### Scopes in step with levels -/

/-- The scopes, the innermost first and the global one last. -/
def scopes (s : ScopeStack) : List Scope := s.inner ++ [s.globals]

theorem scopes_eq_cons (s : ScopeStack) : ∃ outer, s.scopes = s.current :: outer := by
  cases hinner : s.inner <;> simp [scopes, current, hinner]

/-- Scopes and levels, the nearest first, with the same names. A scope has the function of the
nearest level with a mark. -/
inductive Stands : List Scope → List Level → Prop where
  | nil : Stands [] []
  | cons {scope : Scope} {level : Level} {scopes : List Scope} {levels : List Level}
      (names : ∀ name, scope.find? name = level.names.lookup name)
      (function : scope.function = (level :: levels).findSome? (·.mark))
      (rest : Stands scopes levels) : Stands (scope :: scopes) (level :: levels)

namespace Stands

variable {scopes : List Scope} {levels : List Level}

theorem length_eq (h : Stands scopes levels) : scopes.length = levels.length := by
  induction h with
  | nil => rfl
  | cons _ _ _ ih => simp [ih]

theorem drop (h : Stands scopes levels) (n : Nat) : Stands (scopes.drop n) (levels.drop n) := by
  induction h generalizing n with
  | nil => simpa using Stands.nil
  | cons names function rest ih =>
    cases n with
    | zero => exact .cons names function rest
    | succ n => exact ih n

theorem findSome? (h : Stands scopes levels) (name : String) :
    scopes.findSome? (·.find? name) = levels.findSome? (·.names.lookup name) := by
  induction h with
  | nil => rfl
  | cons names _ _ ih => simp only [List.findSome?_cons, names, ih]

theorem find?_getLast (h : Stands scopes levels) (name : String) (hscopes : scopes ≠ [])
    (hlevels : levels ≠ []) :
    (scopes.getLast hscopes).find? name = (levels.getLast hlevels).names.lookup name := by
  induction h with
  | nil => exact absurd rfl hscopes
  | @cons _ _ _ _ names _ rest ih =>
    cases rest with
    | nil => exact names name
    | cons _ _ _ => exact ih (by simp) (by simp)

end Stands

/-- The scopes stand for these levels. -/
def StandsFor (s : ScopeStack) (l : Levels) : Prop := Stands s.scopes l.toList.reverse

theorem scopes_of_add {s s' : ScopeStack} {name : String} {id : SymbolId} {outer : List Scope}
    (h : s.add name id = some s') (hscopes : s.scopes = s.current :: outer) :
    s'.scopes = s.current.insert name id :: outer := by
  unfold add at h
  split at h
  · cases h
  · split at h
    · rename_i hinner
      cases h
      simp_all [scopes, current]
    · rename_i _ _ hinner
      cases h
      simp_all [scopes, current]

namespace StandsFor

variable {s : ScopeStack} {l : Levels}

theorem split (h : s.StandsFor l) : ∃ outer,
    s.scopes = s.current :: outer ∧ l.toList = l.toList.dropLast ++ [l.top] ∧
      (∀ name, s.current.find? name = l.top.names.lookup name) ∧
      s.current.function = l.enclosingFunction ∧ Stands outer l.toList.dropLast.reverse := by
  have hlist : l.toList = l.toList.dropLast ++ [l.top] :=
    (List.dropLast_append_getLast l.nonempty).symm
  have hreverse : l.toList.reverse = l.top :: l.toList.dropLast.reverse := by
    conv_lhs => rw [hlist]
    simp
  unfold StandsFor at h
  rw [hreverse] at h
  obtain ⟨outer, hscopes⟩ := s.scopes_eq_cons
  rw [hscopes] at h
  cases h with
  | cons names function rest =>
    refine ⟨outer, hscopes, hlist, names, ?_, rest⟩
    rw [function, Levels.enclosingFunction, hreverse]

theorem start : ScopeStack.start.StandsFor Levels.start :=
  .cons (fun _ => rfl) rfl .nil

section

variable (h : s.StandsFor l)
include h

theorem push (function : Option SymbolId) : (s.push function).StandsFor (l.push function) := by
  obtain ⟨_, -, -, -, hfunction, -⟩ := h.split
  have hlevels : (l.push function).toList.reverse = ⟨∅, function⟩ :: l.toList.reverse := by
    simp [Levels.push]
  unfold StandsFor
  rw [hlevels]
  refine Stands.cons (fun name => rfl) ?_ h
  -- The mark that was not given is the one the levels below find.
  change function.or s.current.function = _
  rw [hfunction, Levels.enclosingFunction]
  cases function <;> rfl

theorem drop (l' : Levels) (n : Nat)
    (hlist : l'.toList.reverse = l.toList.reverse.drop n) (hn : n ≤ s.inner.length) :
    (s.drop n).StandsFor l' := by
  have hdrop := Stands.drop h n
  rwa [scopes, List.drop_append_of_le_length hn, ← hlist] at hdrop

theorem length_eq : s.depth = l.toList.length := by
  simpa [scopes, depth] using Stands.length_eq h

theorem pop : s.pop.StandsFor l.pop := by
  unfold Levels.pop
  have hlength := h.length_eq
  split
  · rename_i only
    have hinner : s.inner = [] := by
      have := congrArg List.length only
      simp only [List.length_dropLast, List.length_nil] at this
      exact List.length_eq_zero_iff.mp (by simp only [depth] at hlength; omega)
    have hsame : s.pop = s := ScopeStack.ext (by simp [hinner]) rfl
    rwa [hsame]
  · rename_i more
    have hpos : 1 ≤ s.inner.length := by
      have := List.length_pos_of_ne_nil more
      simp only [List.length_dropLast] at this
      simp only [depth] at hlength
      omega
    exact h.drop ⟨l.toList.dropLast, more⟩ 1 (by simp) hpos

theorem unwindTo (depth : Nat) : (s.unwindTo depth).StandsFor (l.unwindTo depth) := by
  refine h.drop (l.unwindTo depth) _ ?_ ?_
  · rw [h.length_eq, Levels.unwindTo, List.reverse_take]
  · simp only [ScopeStack.depth]
    omega

theorem add_isSome (name : String) (id : SymbolId) :
    (s.add name id).isSome ↔ name ∉ l.top.names := by
  obtain ⟨_, -, -, hnames, -, -⟩ := h.split
  rw [← Finmap.lookup_eq_none, ← hnames name]
  unfold ScopeStack.add
  cases hfind : s.current.find? name with
  | some _ => simp
  | none =>
    obtain ⟨inner, _, _⟩ := s
    cases inner <;> simp

theorem add (name : String) (id : SymbolId) :
    ((s.add name id).getD s).StandsFor ((l.add name id).getD l) := by
  have hanswer := h.add_isSome name id
  cases hadd : s.add name id with
  | none =>
    have hmem : name ∈ l.top.names := by simpa [hadd] using hanswer
    simpa [Levels.add, hmem] using h
  | some s' =>
    have hmem : name ∉ l.top.names := by simpa [hadd] using hanswer
    obtain ⟨outer, hscopes, hlist, hnames, hfunction, hrest⟩ := h.split
    have hscopes' : s'.scopes = s.current.insert name id :: outer := scopes_of_add hadd hscopes
    simp only [Levels.add, if_neg hmem, Option.getD_some]
    unfold StandsFor
    rw [hscopes', List.reverse_append, List.reverse_singleton, List.singleton_append]
    refine .cons (fun other => ?_) ?_ hrest
    · rw [Scope.find?_insert]
      split
      · rename_i hname
        rw [hname, Finmap.lookup_insert]
      · rename_i hname
        rw [Finmap.lookup_insert_of_ne _ hname, hnames]
    · change s.current.function = _
      rw [hfunction, Levels.enclosingFunction, hlist, List.dropLast_concat, List.reverse_append]
      rfl

/-- Every operation keeps scopes and levels in step. -/
theorem step (op : Op) : (s.step op).StandsFor (l.step op) := by
  cases op with
  | new => exact .start
  | push function => exact h.push function
  | pop => exact h.pop
  | unwindTo depth => exact h.unwindTo depth
  | add name id => exact h.add name id

theorem run (ops : List Op) : (s.run ops).StandsFor (l.run ops) := by
  induction ops generalizing s l with
  | nil => exact h
  | cons op _ ih => exact ih (h.step op)

end

end StandsFor

/-! ### Answers -/

/-- Every question to the scopes has the answer that the levels give. -/
structure Answers (s : ScopeStack) (l : Levels) : Prop where
  lookup : ∀ name, s.lookup name = l.lookup name
  lookupGlobal : ∀ name, s.lookupGlobal name = l.bottom.names.lookup name
  lookupLocal : ∀ name, s.lookupLocal name = l.top.names.lookup name
  enclosingFunction : s.enclosingFunction = l.enclosingFunction
  depth : s.depth = l.toList.length
  isGlobal : s.isGlobal = true ↔ l.toList.length = 1
  add : ∀ name id, (s.add name id).isSome ↔ name ∉ l.top.names

theorem StandsFor.answers {s : ScopeStack} {l : Levels} (h : s.StandsFor l) : s.Answers l := by
  obtain ⟨_, -, -, hnames, hfunction, -⟩ := h.split
  refine ⟨fun name => ?_, fun name => ?_, hnames, hfunction, h.length_eq, ?_, h.add_isSome⟩
  · rw [lookup_eq, Levels.lookup, ← Stands.findSome? h name, scopes, List.findSome?_append,
      List.findSome?_singleton]
  · have hlast := Stands.find?_getLast h name (by simp [scopes]) (by simp [l.nonempty])
    simpa [scopes, Levels.bottom, ScopeStack.lookupGlobal] using hlast
  · rw [← h.length_eq, depth, isGlobal, List.isEmpty_iff, Nat.add_eq_right,
      List.length_eq_zero_iff]

/-! ### Scopes that are closed again -/

/-- Operations that add names and close every scope that they open. -/
inductive Balanced : List Op → Prop where
  | nil : Balanced []
  | add {ops : List Op} (name : String) (id : SymbolId) (rest : Balanced ops) :
      Balanced (.add name id :: ops)
  | scope {inside ops : List Op} (function : Option SymbolId) (body : Balanced inside)
      (rest : Balanced ops) : Balanced (.push function :: inside ++ .pop :: ops)

theorem run_append (s : ScopeStack) (ops more : List Op) :
    s.run (ops ++ more) = (s.run ops).run more :=
  List.foldl_append

/-- Inside a scope, balanced operations change no scope but that one. -/
theorem run_balanced {ops : List Op} (h : Balanced ops) (s : ScopeStack) (hinner : s.inner ≠ []) :
    (s.run ops).inner ≠ [] ∧ (s.run ops).pop = s.pop := by
  induction h generalizing s with
  | nil => exact ⟨hinner, rfl⟩
  | add name id _ ih =>
    have hstep : (s.step (.add name id)).inner ≠ [] ∧ (s.step (.add name id)).pop = s.pop := by
      cases hadd : s.add name id with
      | none => exact ⟨by simpa [step, hadd] using hinner, by simp [step, hadd]⟩
      | some _ =>
        obtain ⟨_, _, _, hscopes, rfl⟩ := add_eq_some hinner hadd
        exact ⟨by simp [step, hadd], ScopeStack.ext (by simp [step, hadd, hscopes])
          (by simp [step, hadd])⟩
    obtain ⟨hrun, hpop⟩ := ih _ hstep.1
    exact ⟨hrun, hpop.trans hstep.2⟩
  | @scope inside ops function _ _ ihbody ihrest =>
    have hbody : ((s.push function).run inside).pop = s := (ihbody _ (by simp)).2
    rw [run_append]
    change (((s.push function).run inside).pop.run ops).inner ≠ [] ∧
      (((s.push function).run inside).pop.run ops).pop = s.pop
    rw [hbody]
    exact ihrest s hinner

theorem run_scope {inside : List Op} (h : Balanced inside) (s : ScopeStack)
    (function : Option SymbolId) : s.run (.push function :: inside ++ [.pop]) = s := by
  rw [run_append]
  exact (run_balanced h (s.push function) (by simp)).2

/-- A scope stack answers as the list of finite maps does that went through the same operations. A
scope that was opened, used and closed again has no part in any answer. -/
theorem answers_run (ops : List Op) :
    (start.run ops).Answers (Levels.start.run ops) ∧
      ∀ function inside, Balanced inside →
        (start.run (ops ++ (.push function :: inside ++ [.pop]))).Answers
          (Levels.start.run ops) := by
  have hanswers := (StandsFor.start.run ops).answers
  refine ⟨hanswers, fun function inside hinside => ?_⟩
  rw [run_append, run_scope hinside]
  exact hanswers

/-- A function's scope and a block inside it, in which the function's own name and a parameter are
hidden, on top of two globals. -/
theorem answers_run_hiding :
    ∃ ops function inside, Balanced inside ∧
      ((start.run ops).lookup "f" = some 0 ∧
        (start.run (ops ++ .push function :: inside)).lookup "f" = some 3 ∧
        (start.run (ops ++ .push function :: inside)).enclosingFunction = some 0) ∧
      (start.run (ops ++ (.push function :: inside ++ [.pop]))).Answers (Levels.start.run ops) :=
  have hinside : Balanced [.add "x" 2, .push none, .add "x" 4, .pop, .add "f" 3] :=
    .add "x" 2 (@Balanced.scope [.add "x" 4] _ none (.add "x" 4 .nil) (.add "f" 3 .nil))
  ⟨[.add "f" 0, .add "g" 1], some 0, _, hinside, by decide +kernel, (answers_run _).2 _ _ hinside⟩

end ScopeStack

end Laye
