import Laye.Proofs.Lowering.Functions
import Laye.Proofs.Meaning.Language
import Laye.Proofs.Meaning.Machine

/-!
# The meaning of trees

What a checked function does when it is called, by evaluation of its tree on a `Machine`. Operands
and arguments are evaluated from left to right. The right operand of `and` and `or` is evaluated
only if the left one leaves the result open. A variable lives in the cell of its symbol. What the
operators do, and how values are held, is said in `Laye.Proofs.Meaning.Language`.

An expression gives a `Result`: the place that it names, or a value. A statement gives an `Outcome`,
which says where control goes on; what follows a statement that does not end in `Outcome.next` is
not run. A loop is run by `Effect.loop`, which gives what finitely many iterations give
(`Effect.loop_eq_some`), so a loop that never ends has no result.
-/

namespace Laye

variable {Val State : Type}

/-! ### Results of expressions -/

/-- What an expression gives: a value, or the address of the place it names. -/
inductive Result (Val : Type) where
  | value (v : Val)
  | place (address : Val)

namespace Result

/-- The value of a result, which is read from its place. -/
def load (M : Machine Val State) (ty : Ty) : Result Val → Effect State Val
  | .value v => pure v
  | .place a => M.load ty.held a

/-- The address of a result. Only places have one. -/
def address : Result Val → Effect State Val
  | .value _ => failure
  | .place a => pure a

/-- A part of a result, which is a place if the whole is one. -/
def part (M : Machine Val State) (projection : Projection Val) :
    Result Val → Effect State (Result Val)
  | .value v => pure (.value (M.project projection v))
  | .place a => do pure (.place (← M.address projection a))

/-- Where the elements of a container of a type are. Those of an array are parts of it; other
containers refer to them. -/
def elements (M : Machine Val State) (ty : Ty) (container : Result Val) :
    Effect State (Result Val) :=
  match ty with
  | .array _ _ _ => pure container
  | .pointer _ _ | .buffer _ _ | .rawptr => do pure (.place (← container.load M ty))
  | .slice _ _ | .string => do pure (.place (← M.sliceData (← container.load M ty)))
  | _ => failure

end Result

/-! ### Expressions -/

namespace Typed.Expr

variable (M : Machine Val State) (symbols : SymbolTable) (cells : SymbolId → Val)

mutual

/-- Evaluates an expression, with the variables in their cells. -/
def eval : Expr → Effect State (Result Val)
  | .integer _ _ magnitude negative =>
    pure (.value (M.constant (.int (if negative then -(magnitude : Int) else magnitude))))
  | .float _ _ value => pure (.value (M.constant (.float value)))
  | .bool _ _ value => pure (.value (M.constant (.bool value)))
  | .string _ _ value => pure (.value (M.constant (.string value)))
  | .load _ _ symbol =>
    if (symbols.symbolAt symbol).kind = .function then
      pure (.value (M.global (symbols.symbolAt symbol).name))
    else pure (.place (cells symbol))
  | .cast ty _ inner => do
    let v ← (← inner.eval).load M inner.ty
    pure (.value (← M.cast inner.ty.held ty.held v))
  | .materialize ty _ inner => do
    let v ← (← inner.eval).load M inner.ty
    pure (.value (← M.materialize ty.held v))
  | .invoke ty _ function args => do
    let vs ← evalAll args
    let v ← M.call (symbols.symbolAt function).name vs
    pure (.value (if ty.isVoid then M.unit else v))
  | .unary _ _ op operand => do
    let v ← (← operand.eval).load M operand.ty
    pure (.value (← M.unary op.meaning v))
  | .binary _ _ op left right => do
    let v ← (← left.eval).load M left.ty
    match op.meaning with
    | .computes operation =>
      let w ← (← right.eval).load M right.ty
      pure (.value (← M.binary operation left.ty.held v w))
    | .decidedBy answer =>
      if (← M.test v) = answer then pure (.value v)
      else pure (.value (← (← right.eval).load M right.ty))
  | .addressOf _ _ inner => do
    pure (.value (← (← inner.eval).address))
  | .dereference _ _ inner => do
    pure (.place (← (← inner.eval).load M inner.ty))
  | .index ty _ target i => do
    let container ← (← target.eval).elements M target.ty
    let v ← (← i.eval).load M i.ty
    container.part M (.element ty.held v)
  | .field _ _ target _ place =>
    match target.ty with
    | .struct name _ _ => do (← target.eval).part M (.field name place)
    | _ => failure

/-- Evaluates expressions from left to right, to their values. -/
def evalAll : List Expr → Effect State (List Val)
  | [] => pure []
  | e :: es => do
    let v ← (← e.eval).load M e.ty
    let vs ← evalAll es
    pure (v :: vs)

end

def evalValue (e : Expr) : Effect State Val := do (← e.eval M symbols cells).load M e.ty

/-- Evaluates an expression to the address of the place it names. -/
def evalAddress (e : Expr) : Effect State Val := do (← e.eval M symbols cells).address

def evalOption : Option Expr → Effect State (Option Val)
  | none => pure none
  | some e => do pure (some (← e.evalValue M symbols cells))

end Typed.Expr

/-! ### Statements -/

/-- Where control goes after a statement. -/
inductive Outcome (Val : Type) where
  /-- To what follows the statement. -/
  | next
  /-- Out of the loop around it. -/
  | breakLoop
  /-- To the condition of the loop around it. -/
  | continueLoop
  /-- Out of the function, which gives the value. -/
  | ret (value : Option Val)

namespace Effect

/-- Repeats a step until it gives a result, at most `n` times. -/
def repeatUpTo {α : Type} (step : Effect State (Option α)) : Nat → State → Option (α × State)
  | 0, _ => none
  | n + 1, s =>
    match step s with
    | some (some a, s') => some (a, s')
    | some (none, s') => repeatUpTo step n s'
    | none => none

variable {α : Type} {step : Effect State (Option α)} {s : State}

/-- A loop that ends within some rounds ends the same way within more. -/
theorem repeatUpTo_mono {n m : Nat} (hle : n ≤ m) {r : α × State}
    (h : repeatUpTo step n s = some r) : repeatUpTo step m s = some r := by
  induction n generalizing m s with
  | zero => cases h
  | succ n ih =>
    obtain ⟨m, rfl⟩ : ∃ k, m = k + 1 := ⟨m - 1, by omega⟩
    rw [repeatUpTo] at h ⊢
    match hstep : step s with
    | none =>
      rw [hstep] at h
      cases h
    | some (some a, s') =>
      rw [hstep] at h
      exact h
    | some (none, s') =>
      rw [hstep] at h
      exact ih (by omega) h

open Classical in
/-- Repeats a step until it gives a result. -/
noncomputable def loop {α : Type} (step : Effect State (Option α)) (s : State) :
    Option (α × State) :=
  if h : ∃ r n, repeatUpTo step n s = some r then some h.choose else none

/-- A loop comes to a result if some number of rounds does. -/
theorem loop_eq_some {r : α × State} :
    loop step s = some r ↔ ∃ n, repeatUpTo step n s = some r := by
  constructor
  · intro h
    unfold loop at h
    split at h
    · rename_i hex
      rw [← Option.some.inj h]
      exact hex.choose_spec
    · cases h
  · rintro ⟨n, hn⟩
    have hex : ∃ r n, repeatUpTo step n s = some r := ⟨r, n, hn⟩
    obtain ⟨m, hm⟩ := hex.choose_spec
    rw [loop, dif_pos hex]
    -- Both numbers of repetitions give the result of the larger one.
    have hsame := repeatUpTo_mono (Nat.le_max_left n m) hn
    rw [repeatUpTo_mono (Nat.le_max_right n m) hm] at hsame
    exact hsame

/-- A loop without a result has a first round without one, or goes on to such a loop. -/
theorem loop_eq_none (h : loop step s = none) :
    step s = none ∨ ∃ s', step s = some (none, s') ∧ loop step s' = none := by
  match hstep : step s with
  | none => exact .inl rfl
  | some (some a, s') =>
    have hsome : loop step s = some (a, s') := loop_eq_some.mpr ⟨1, by rw [repeatUpTo, hstep]⟩
    rw [h] at hsome
    cases hsome
  | some (none, s') =>
    refine .inr ⟨s', rfl, Option.eq_none_iff_forall_ne_some.mpr fun r hr => ?_⟩
    obtain ⟨n, hn⟩ := loop_eq_some.mp hr
    have hsome : loop step s = some r :=
      loop_eq_some.mpr ⟨n + 1, by rw [repeatUpTo, hstep]; exact hn⟩
    rw [h] at hsome
    cases hsome

/-- One iteration of a loop. It gives the outcome of the loop if it is the last. -/
def iteration (condition : Effect State Bool) (body : Effect State (Outcome Val)) :
    Effect State (Option (Outcome Val)) := do
  if ← condition then
    match ← body with
    | .next | .continueLoop => pure none
    | .breakLoop => pure (some .next)
    | .ret value => pure (some (.ret value))
  else pure (some .next)

end Effect

namespace Typed.Stmt

variable (M : Machine Val State) (symbols : SymbolTable) (cells : SymbolId → Val)

mutual

/-- Runs a statement. -/
noncomputable def exec : Stmt → Effect State (Outcome Val)
  | .block stmts _ => execAll stmts
  | .binding symbol value _ => do
    M.storeInitial (cells symbol) (← Expr.evalOption M symbols cells value)
    pure .next
  | .expression value => do
    let _ ← value.evalValue M symbols cells
    pure .next
  | .ret value _ => do
    pure (.ret (← Expr.evalOption M symbols cells value))
  | .assign target value _ => do
    let a ← target.evalAddress M symbols cells
    let v ← value.evalValue M symbols cells
    M.store a v
    pure .next
  | .conditional condition thenBody none _ => do
    if ← M.test (← condition.evalValue M symbols cells) then thenBody.exec else pure .next
  | .conditional condition thenBody (some elseBody) _ => do
    if ← M.test (← condition.evalValue M symbols cells) then thenBody.exec else elseBody.exec
  | .whileLoop condition body none _ =>
    Effect.loop (.iteration (do M.test (← condition.evalValue M symbols cells)) body.exec)
  | .whileLoop _ _ (some _) _ | .yield _ _ => failure
  | .breakLoop _ => pure .breakLoop
  | .continueLoop _ => pure .continueLoop
  | .deadCode _ _ => pure .next

noncomputable def execAll : List Stmt → Effect State (Outcome Val)
  | [] => pure .next
  | stmt :: rest => do
    match ← stmt.exec with
    | .next => execAll rest
    | outcome => pure outcome

end

end Typed.Stmt

/-! ### Functions -/

/-- Runs a body. An expression is the value that the function gives, if it gives one. -/
noncomputable def Typed.Body.exec (M : Machine Val State) (symbols : SymbolTable)
    (cells : SymbolId → Val)
    (returnsVoid : Bool) : Typed.Body → Effect State (Outcome Val)
  | .empty => failure
  | .block stmts _ => Stmt.execAll M symbols cells stmts
  | .expression value => do
    let v ← value.evalValue M symbols cells
    pure (.ret (if returnsVoid then none else some v))

namespace Typed.Function

variable (M : Machine Val State) (symbols : SymbolTable) (cells : SymbolId → Val)

/-- Stores the arguments, from the place `next` on, into the cells of the parameters. -/
def enter (args : List Val) : Nat → List SymbolId → Effect State Unit
  | _, [] => pure ()
  | next, symbol :: rest => do
    M.store (cells symbol) (← StateT.lift args[next]?)
    enter args (next + 1) rest

/-- Runs the body of a function. Control that reaches its end returns without a value. -/
noncomputable def run (f : Function) : Effect State (Option Val) := do
  match ← f.body.exec M symbols cells (f.returnsVoid symbols) with
  | .next => pure none
  | .ret value => pure value
  | .breakLoop | .continueLoop => failure

/-- Calls a function with arguments. It gives what the function returns. -/
noncomputable def eval (f : Function) (args : List Val) : Effect State (Option Val) := do
  enter M cells args 0 f.params
  f.run M symbols cells

end Typed.Function

end Laye
