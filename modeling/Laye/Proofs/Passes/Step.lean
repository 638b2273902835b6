import Laye.Problem
import Laye.Type.Builtin
import Laye.Typing.Conversion

/-!
# Steps of a pass

A pass goes over a unit with a state that it changes. Where it meets a fault it reports it, and then
it stops: these are two steps, and nothing in their types ties them together. It reads symbols and
declarations by their places in tables, counts the loops around a statement, and computes the limits
of literals in words of 64 bits. `Step` is a computation of this kind. It has a result or none,
keeps what was reported either way, and ends in a `Trap` where it would leave a table or the words,
or where a promise of a pass is broken.

`Step.Runs` ties the two together. It says that a step does not trap, and either comes to a result
without a report, or reports one fault and stops. It has a rule for each way in which steps are put
together. `Word.limit` is the computation of a limit in words, which comes to `literalLimit` at the
widths that integers have (`Word.limit_eq_ok`).
-/

namespace Laye

/-- What a step runs into that must not be taken. -/
inductive Trap where
  /-- There is no symbol at the place. -/
  | symbol (id : SymbolId)
  /-- There is no declaration at the place, or its symbol is not that of the declaration. -/
  | declaration (id : SymbolId)
  /-- The struct has no field at the place. -/
  | field (place : Nat)
  /-- A loop is left where none was entered. -/
  | loop
  /-- Declarations are resolved inside one another, deeper than there are any. -/
  | nesting
  /-- A shift by too much, or by less than any width asks for. -/
  | shift (amount : Nat)
  /-- A difference below zero. -/
  | difference
  /-- A pass gave no result and did not say why. -/
  | unreported (text : String)
deriving DecidableEq, Repr

/-! ### Words -/

namespace Word

/-- The difference of two words. -/
def sub (a b : UInt64) : Except Trap UInt64 :=
  if b ≤ a then .ok (a - b) else .error .difference

/-- One bit, shifted by an amount. There are no shifts by 64 and more, and the limits of integers
need none by less than 7. -/
def shifted (amount : Nat) : Except Trap UInt64 :=
  if 7 ≤ amount ∧ amount ≤ 63 then .ok (1 <<< amount.toUInt64) else .error (.shift amount)

/-- The place of the highest bit of a width. -/
def highest (bits : Nat) : Except Trap Nat :=
  if 1 ≤ bits then .ok (bits - 1) else .error .difference

/-- The largest magnitude that a literal of an integer type may have, as a word. -/
def limit (signed : Bool) (bits : Nat) (negative : Bool) : Except Trap UInt64 :=
  match signed, negative with
  | true, true => do shifted (← highest bits)
  | true, false => do sub (← shifted (← highest bits)) 1
  | false, _ =>
    if 64 ≤ bits then .ok (UInt64.ofNat (UInt64.size - 1)) else do sub (← shifted bits) 1

/-- At the widths that integers have, no shift and no difference traps, and the word is the
limit. -/
theorem limit_eq_ok {bits : Nat} (h : bits ∈ Builtin.integerWidths) (signed negative : Bool) :
    ∃ word, limit signed bits negative = .ok word ∧
      word.toNat = literalLimit signed bits negative := by
  simp only [Builtin.integerWidths, List.mem_cons, List.not_mem_nil, or_false] at h
  rcases h with rfl | rfl | rfl | rfl <;> cases signed <;> cases negative <;> exact ⟨_, rfl, rfl⟩

-- a width that no integer has
example : limit true 65 true = .error (.shift 64) := rfl

end Word

/-! ### Logs -/

/-- The diagnostics of a compilation as a pass sees them: those of before it, and what it found. -/
structure Log where
  before : List Diagnostic
  findings : List Finding
deriving Inhabited

namespace Log

/-- All diagnostics, in the order in which they were reported. -/
def diagnostics (log : Log) : List Diagnostic := log.before ++ log.findings.map Finding.toDiagnostic

/-- The log with one more finding. -/
def report (finding : Finding) (log : Log) : Log :=
  { log with findings := log.findings ++ [finding] }

end Log

namespace Diagnostic

theorem errorCount_append (ds ds' : List Diagnostic) :
    errorCount (ds ++ ds') = errorCount ds + errorCount ds' :=
  List.countP_append

theorem errorCount_findings (findings : List Finding) :
    errorCount (findings.map Finding.toDiagnostic) = findings.countP Finding.isFault := by
  rw [errorCount, count, List.countP_map]
  refine List.countP_congr fun finding _ => ?_
  cases finding <;> simp [Finding.toDiagnostic, Finding.isFault]

theorem errorCount_fault (fault : Fault) :
    errorCount [(Finding.fault fault).toDiagnostic] = 1 := rfl

end Diagnostic

/-- The errors of a log that has grown are those of before and the new faults. -/
theorem Log.errorCount_extended (log : Log) (more : List Finding) :
    Diagnostic.errorCount (Log.diagnostics ⟨log.before, log.findings ++ more⟩) =
      Diagnostic.errorCount log.diagnostics + more.countP Finding.isFault := by
  rw [diagnostics, List.map_append, ← List.append_assoc, Diagnostic.errorCount_append,
    Diagnostic.errorCount_findings]
  rfl

/-- A state that has a log, to which findings are reported. -/
class Logs (S : Type) where
  log : S → Log
  report : Finding → S → S

instance : Logs Log := ⟨id, Log.report⟩

/-! ### Steps -/

/-- A step over a state, which it may change whether or not it comes to a result. -/
def Step (S α : Type) : Type := S → Except Trap (Option α × S)

namespace Step

variable {S α β : Type}

/-- Goes on after a step that came to a result. -/
def resume (next : α → Step S β) : Except Trap (Option α × S) → Except Trap (Option β × S)
  | .ok (some a, s) => next a s
  | .ok (none, s) => .ok (none, s)
  | .error trap => .error trap

instance : Monad (Step S) where
  pure a := fun s => .ok (some a, s)
  bind x next := fun s => resume next (x s)

/-- Ends without a result. -/
def stop : Step S α := fun s => .ok (none, s)

/-- A look before a step is taken. -/
def look (x : Except Trap α) : Step S α := fun s =>
  match x with
  | .ok a => .ok (some a, s)
  | .error trap => .error trap

/-- Changes the state. -/
def change (g : S → S) : Step S Unit := fun s => .ok (some (), g s)

/-- Changes the state that a step left, with or without a result. -/
def settle (g : S → Except Trap S) :
    Except Trap (Option α × S) → Except Trap (Option α × S)
  | .ok (result, s) => do
    let s ← g s
    .ok (result, s)
  | .error trap => .error trap

/-- Changes the state after a step, also after one that stopped. -/
def thenAlways (x : Step S α) (g : S → Except Trap S) : Step S α := fun s => settle g (x s)

/-- A step that works on a state of its own, made from the state before it and given back after
it. -/
def nested {T : Type} (enter : S → T) (leave : T → S) (x : Step T α) : Step S α := fun s =>
  match x (enter s) with
  | .ok (result, t) => .ok (result, leave t)
  | .error trap => .error trap

theorem nested_eq {T : Type} (enter : S → T) (leave : T → S) {x : Step T α} {s : S} {t : T}
    {result : Option α} (h : x (enter s) = .ok (result, t)) :
    nested enter leave x s = .ok (result, leave t) := by
  simp only [nested, h]

/-- After a result the next step is taken. -/
theorem bind_some {x : Step S α} {s s' : S} {a : α} (h : x s = .ok (some a, s'))
    (next : α → Step S β) : (x >>= next) s = next a s' := by
  simp only [Bind.bind, h, resume]

/-- After a stop nothing else is done. -/
theorem bind_none {x : Step S α} {s s' : S} (h : x s = .ok (none, s')) (next : α → Step S β) :
    (x >>= next) s = .ok (none, s') := by
  simp only [Bind.bind, h, resume]

section Runs

variable [Logs S]

/-- Reports a fault. -/
def report (fault : Fault) : Step S Unit := change (Logs.report (.fault fault))

/-- What a step comes to that changes nothing but what is reported: the result and no report, or one
report and no result. -/
def outcome (result : Except Fault α) (s : S) : Option α × S :=
  match result with
  | .ok a => (some a, s)
  | .error fault => (none, Logs.report (.fault fault) s)

/-- From every state the step comes to the result without a report, or reports the fault, once, and
stops. It does not trap. -/
def Runs (x : Step S α) (result : Except Fault α) : Prop := ∀ s, x s = .ok (outcome result s)

/-- A step that must say why if it gives no result: the guard demands a new error then. -/
def demanding (g : ErrorGuard) (context : String) (x : Step S α) : Step S α := fun s =>
  match x s with
  | .ok (some a, s) => .ok (some a, s)
  | .ok (none, s) =>
    match g.demandErrors (Logs.log s).diagnostics context with
    | .ok () => .ok (none, s)
    | .error text => .error (.unreported text)
  | .error trap => .error trap

theorem demanding_some {g : ErrorGuard} {context : String} {x : Step S α} {s s' : S} {a : α}
    (h : x s = .ok (some a, s')) : demanding g context x s = .ok (some a, s') := by
  simp only [demanding, h]

theorem demanding_none {g : ErrorGuard} {context : String} {x : Step S α} {s s' : S}
    (h : x s = .ok (none, s'))
    (hnew : g.baseline < Diagnostic.errorCount (Logs.log s').diagnostics) :
    demanding g context x s = .ok (none, s') := by
  simp only [demanding, h, ErrorGuard.demandErrors, ErrorGuard.hasNewErrors, hnew, decide_true,
    if_true]

namespace Runs

variable {x : Step S α} {result : Except Fault α} {next : α → Step S β}

/-- A result without a report. -/
theorem pure (a : α) : Runs (S := S) (Pure.pure a) (.ok a) := fun _ => rfl

/-- One report, and no result. -/
theorem refused (fault : Fault) :
    Runs (S := S) (α := α) (report fault >>= fun _ => stop) (.error fault) := fun _ => rfl

/-- What follows only runs after a result, and then nothing was reported yet. -/
theorem bind {next' : α → Except Fault β} (h : x.Runs result)
    (hnext : ∀ a, result = .ok a → (next a).Runs (next' a)) :
    (x >>= next).Runs (result >>= next') := by
  intro s
  cases result with
  | error _ => exact bind_none (h s) next
  | ok a => exact (bind_some (h s) next).trans (hnext a rfl s)

/-- A look that finds what it looks for. -/
theorem look_bind {y : Except Trap α} {a : α} {result : Except Fault β} (h : y = .ok a)
    (hnext : (next a).Runs result) : (look y >>= next).Runs result := by
  subst h
  exact hnext

end Runs

end Runs

end Step

end Laye
