import Laye.Proofs.Lowering.Variables
import Laye.Proofs.Meaning.Code
import Laye.Proofs.Meaning.Tree

/-!
# Code that follows a tree

The run of a piece of code follows the evaluation of a tree if it comes as far: where the evaluation
gives a result, the run reaches a configuration that holds it, and where the evaluation does not
finish, the run does not return (`Activation.Follows`).

A builder says where a run is. `Activation.Placed` relates the two: the run is in the current
block, behind the code that was built so far, and what is still to run there is what the finished
function has beyond that (`Activation.Completes`).

`Activation.Simulates` says of a step of lowering that its code follows an effect. Its rules have
the form of the steps of lowering. What the code relies on and what it leaves are facts about
registers and private slots that later code does not disturb (`Fact`). -/

namespace Laye

open IR

variable {Val State : Type}

/-! ### Facts -/

/-- The registers and private slots below `n` are the same in both configurations. -/
structure Config.Keeps (c : Config Val State) (n : Register) (c' : Config Val State) : Prop where
  registers : ∀ r, r < n → c'.registers r = c.registers r
  slots : ∀ r, r < n → c'.slots r = c.slots r

namespace Config.Keeps

variable {c c' c'' : Config Val State} {n m : Register}

theorem refl (c : Config Val State) (n : Register) : c.Keeps n c := ⟨fun _ _ => rfl, fun _ _ => rfl⟩

theorem elsewhere (c : Config Val State) (n : Register) (code : List Instruction) (s : State) :
    c.Keeps n { c with code := code, state := s } :=
  ⟨fun _ _ => rfl, fun _ _ => rfl⟩

theorem trans (h : c.Keeps n c') (h' : c'.Keeps m c'') (hle : n ≤ m) : c.Keeps n c'' :=
  ⟨fun r hr => (h'.registers r (Nat.lt_of_lt_of_le hr hle)).trans (h.registers r hr),
    fun r hr => (h'.slots r (Nat.lt_of_lt_of_le hr hle)).trans (h.slots r hr)⟩

theorem mono (h : c.Keeps n c') (hle : m ≤ n) : c.Keeps m c' := (refl c m).trans h hle

theorem define (h : c.Keeps n c') {r : Register} (hle : n ≤ r) (w : Word Val) :
    c.Keeps n (c'.define r w) := by
  refine ⟨fun q hq => ?_, h.slots⟩
  rw [c'.define_of_ne w (Nat.ne_of_lt (Nat.lt_of_lt_of_le hq hle))]
  exact h.registers q hq

theorem fill {r : Register} {v : Val} (hle : n ≤ r) (hregisters : c'.registers = c.registers)
    (hslots : c'.slots = (c.fill r v).slots) : c.Keeps n c' := by
  refine ⟨fun q _ => by rw [hregisters], fun q hq => ?_⟩
  rw [hslots, c.fill_of_ne v (Nat.ne_of_lt (Nat.lt_of_lt_of_le hq hle))]

end Config.Keeps

/-- Something that is known of a configuration when the registers from `n` on are still free. It
depends only on what is below `n`. -/
structure Fact (Val State : Type) where
  holds : Register → Config Val State → Prop
  stable : ∀ {n n' : Register} {c c' : Config Val State}, n ≤ n' → c.Keeps n c' → holds n c →
    holds n' c'

namespace Fact

/-- What is known of every configuration. -/
def always (p : Prop) : Fact Val State := ⟨fun _ _ => p, fun _ _ h => h⟩

/-- Two facts together. -/
def and (P Q : Fact Val State) : Fact Val State :=
  ⟨fun n c => P.holds n c ∧ Q.holds n c, fun hle hkeeps h =>
    ⟨P.stable hle hkeeps h.1, Q.stable hle hkeeps h.2⟩⟩

end Fact

/-! ### Following an effect -/

namespace Activation

variable {A : Activation Val State} {α β : Type} {c c' : Config Val State} {k n : Nat}

/-- From a configuration, the run comes as far as an effect with the given outcome. If the effect
has a result, the run gets to a configuration of its state that satisfies `Q`, in `k` steps or more.
If it has none, the run does not return. -/
def Follows (A : Activation Val State) (k : Nat) (c : Config Val State)
    (outcome : Option (α × State)) (Q : α → Config Val State → Prop) : Prop :=
  match outcome with
  | some (a, s) => ∃ n c', k ≤ n ∧ A.Steps n c c' ∧ c'.state = s ∧ Q a c'
  | none => ∀ v s, ¬ A.Returns c v s

/-- What holds after an iteration: `Q` if it was the last and gave the result of the loop, and the
invariant `I` if not. -/
def Iterated (Q : α → Config Val State → Prop) (I : Config Val State → Prop) :
    Option α → Config Val State → Prop
  | some a, c => Q a c
  | none, c => I c

theorem Steps.not_returns (h : A.Steps n c c') (hnot : ∀ v s, ¬ A.Returns c' v s)
    (v : Option Val) (s : State) : ¬ A.Returns c v s := by
  rintro ⟨m, hret⟩
  obtain ⟨k, -, hk⟩ := h.returnsIn hret
  exact hnot v s ⟨k, hk⟩

theorem not_returns_of_step_eq_none (h : A.step c = none) (v : Option Val) (s : State) :
    ¬ A.Returns c v s := by
  rintro ⟨m, last, hsteps, hlast⟩
  cases hsteps with
  | refl =>
    rw [h] at hlast
    cases hlast
  | head first _ =>
    rw [h] at first
    cases first

namespace Follows

variable {o : Option (α × State)} {Q R : α → Config Val State → Prop}

theorem pure {a : α} (h : Q a c) : A.Follows 0 c ((Pure.pure a : Effect State α) c.state) Q :=
  ⟨0, c, Nat.le_refl 0, .refl c, rfl, h⟩

theorem mono (h : A.Follows k c o Q) (hQ : ∀ a c', Q a c' → R a c') : A.Follows k c o R := by
  match o, h with
  | none, h => exact h
  | some (a, s), ⟨n, c', hk, hsteps, hstate, hq⟩ =>
    exact ⟨n, c', hk, hsteps, hstate, hQ a c' hq⟩

theorem of_steps (hsteps : A.Steps n c c') (h : A.Follows k c' o Q) :
    A.Follows (n + k) c o Q := by
  match o, h with
  | none, h => exact hsteps.not_returns h
  | some (a, s), ⟨m, c'', hk, hsteps', hstate, hq⟩ =>
    exact ⟨n + m, c'', Nat.add_le_add_left hk n, hsteps.trans hsteps', hstate, hq⟩

theorem weaken (h : A.Follows k c o Q) : A.Follows 0 c o Q := by
  match o, h with
  | none, h => exact h
  | some (a, s), ⟨n, c', _, hsteps, hstate, hq⟩ =>
    exact ⟨n, c', Nat.zero_le n, hsteps, hstate, hq⟩

variable {E : Effect State α} {F : α → Effect State β} {S : β → Config Val State → Prop}

theorem bind_add {j : Nat} (h : A.Follows j c (E c.state) Q)
    (hnext : ∀ a c', Q a c' → A.Follows k c' (F a c'.state) S) :
    A.Follows (j + k) c ((E >>= F) c.state) S := by
  show A.Follows (j + k) c ((E c.state).bind fun p => F p.1 p.2) S
  match E c.state, h with
  | none, h => exact h
  | some (a, s), ⟨n, c', hj, hsteps, hstate, hq⟩ =>
    subst hstate
    have hrest : A.Follows (n + k) c (F a c'.state) S := of_steps hsteps (hnext a c' hq)
    show A.Follows (j + k) c (F a c'.state) S
    match F a c'.state, hrest with
    | none, hrest => exact hrest
    | some (b, _), ⟨m, last, hm, hsteps', hstate', hs⟩ =>
      exact ⟨m, last, Nat.le_trans (Nat.add_le_add_right hj k) hm, hsteps', hstate', hs⟩

/-- A run follows two effects if it follows one after the other. -/
theorem bind (h : A.Follows 0 c (E c.state) Q)
    (hnext : ∀ a c', Q a c' → A.Follows 0 c' (F a c'.state) S) :
    A.Follows 0 c ((E >>= F) c.state) S :=
  bind_add h hnext

/-- Steps without an effect may come first. -/
theorem silent {P : Config Val State → Prop}
    (h : A.Follows 0 c ((Pure.pure () : Effect State Unit) c.state) fun _ c' => P c')
    (hnext : ∀ c', P c' → A.Follows k c' (E c'.state) Q) : A.Follows k c (E c.state) Q := by
  have hboth := bind_add (F := fun _ => E) h fun _ c' hc' => hnext c' hc'
  rwa [pure_bind, Nat.zero_add] at hboth

/-- A loop. Each iteration follows the step from the invariant `I`, takes a step of the run at
least, and ends with the result of the loop or in the invariant again. -/
theorem loop {step : Effect State (Option α)} {I : Config Val State → Prop}
    (hstep : ∀ c, I c → A.Follows 1 c (step c.state) (Iterated Q I)) (hc : I c) :
    A.Follows 0 c (Effect.loop step c.state) Q := by
  cases hloop : Effect.loop step c.state with
  | some result =>
    obtain ⟨k, hk⟩ := Effect.loop_eq_some.mp hloop
    -- By induction on the number of iterations, from the end of the loop backwards.
    have key : ∃ n c', A.Steps n c c' ∧ c'.state = result.2 ∧ Q result.1 c' := by
      clear hloop
      induction k generalizing c with
      | zero => cases hk
      | succ k ih =>
        rw [Effect.repeatUpTo] at hk
        have hfollows := hstep c hc
        cases hrun : step c.state with
        | none =>
          rw [hrun] at hk
          cases hk
        | some outcome =>
          obtain ⟨o, s⟩ := outcome
          rw [hrun] at hk hfollows
          obtain ⟨n, c', -, hsteps, hstate, hlast⟩ := hfollows
          cases o with
          | some a =>
            obtain rfl : (a, s) = result := Option.some.inj hk
            exact ⟨n, c', hsteps, hstate, hlast⟩
          | none =>
            subst hstate
            obtain ⟨m, c'', hsteps', hstate', hq⟩ := ih hlast hk
            exact ⟨n + m, c'', hsteps.trans hsteps', hstate', hq⟩
    obtain ⟨n, c', hsteps, hstate, hq⟩ := key
    exact ⟨n, c', Nat.zero_le n, hsteps, hstate, hq⟩
  | none =>
    rintro v s ⟨n, hret⟩
    -- A run that returns has fewer steps ahead of it after each iteration.
    induction n using Nat.strongRecOn generalizing c with
    | _ n ih =>
      have hfollows := hstep c hc
      rcases Effect.loop_eq_none hloop with hrun | ⟨_, hrun, hloop'⟩
      · rw [hrun] at hfollows
        exact hfollows v s ⟨n, hret⟩
      · rw [hrun] at hfollows
        obtain ⟨m, _, hm, hsteps, hstate, hI⟩ := hfollows
        obtain ⟨j, rfl, hj⟩ := hsteps.returnsIn hret
        subst hstate
        exact ih j (Nat.lt_add_of_pos_left hm) hI hloop' hj

end Follows

end Activation

end Laye
