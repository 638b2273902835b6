import Laye.Proofs.Meaning.Machine

/-!
# The meaning of code

What a function of the intermediate representation does when it is called, one instruction at a
time, on a `Machine`. A `Config` is a call in progress: the block, the instructions of it that are
still to run, the registers, and the state of the machine.

A stack slot is the cell of a variable, or it is private to the call: a temporary that nothing but
the code of the call can reach. Which slots are cells, and where, is part of the `Activation`. A
private slot holds one value. Its address can be projected, loaded from and, as a whole, stored to;
it is not a value that the machine could compute with.
-/

namespace Laye

open IR

variable {Val State : Type}

/-- What a register holds. -/
inductive Word (Val : Type) where
  | value (v : Val)
  /-- The address of a part of what is in a private slot. -/
  | slot (slot : Register) (path : List (Projection Val))

/-- A word as a value. -/
def Word.value? : Word Val → Option Val
  | .value v => some v
  | .slot _ _ => none

/-- A call in progress. -/
structure Config (Val State : Type) where
  block : BlockId
  /-- The instructions of the block that are still to run. -/
  code : List Instruction
  registers : Register → Option (Word Val)
  /-- What the private slots hold. -/
  slots : Register → Option Val
  state : State

namespace Config

def define (c : Config Val State) (r : Register) (w : Word Val) : Config Val State :=
  { c with registers := fun q => if q = r then some w else c.registers q }

/-- The configuration in which a private slot holds a value. -/
def fill (c : Config Val State) (r : Register) (v : Val) : Config Val State :=
  { c with slots := fun q => if q = r then some v else c.slots q }

theorem define_self (c : Config Val State) (r : Register) (w : Word Val) :
    (c.define r w).registers r = some w := by
  simp [define]

theorem define_of_ne (c : Config Val State) {q r : Register} (w : Word Val) (hne : q ≠ r) :
    (c.define r w).registers q = c.registers q := by
  simp [define, hne]

theorem fill_self (c : Config Val State) (r : Register) (v : Val) :
    (c.fill r v).slots r = some v := by
  simp [fill]

theorem fill_of_ne (c : Config Val State) {q r : Register} (v : Val) (hne : q ≠ r) :
    (c.fill r v).slots q = c.slots q := by
  simp [fill, hne]

/-- Lets the machine work, and goes on with the result. -/
def perform {α : Type} (c : Config Val State) (effect : Effect State α)
    (next : Config Val State → α → Config Val State) : Option (Config Val State) :=
  (effect c.state).map fun (a, s) => next { c with state := s } a

/-- Lets the machine compute the value of a register. -/
def compute (c : Config Val State) (r : Register) (effect : Effect State Val) :
    Option (Config Val State) :=
  c.perform effect fun c' v => c'.define r (.value v)

end Config

/-- How a run goes on after a step. -/
inductive Status (Val State : Type) where
  | running (config : Config Val State)
  | returned (value : Option Val) (state : State)

/-- A function that was called: its code, its arguments, and the addresses of those of its stack
slots that are cells of variables. -/
structure Activation (Val State : Type) where
  machine : Machine Val State
  blocks : List Block
  args : List Val
  cellOf : Register → Option Val

namespace Activation

variable (A : Activation Val State)

/-- The address of a stack slot. -/
def slotWord (r : Register) : Word Val :=
  match A.cellOf r with
  | some a => .value a
  | none => .slot r []

/-- What an operand stands for. -/
def word (c : Config Val State) : IR.Value → Option (Word Val)
  | .register r => c.registers r
  | .constant k => some (.value (A.machine.constant k))
  | .param place => (A.args[place]?).map .value
  | .global name => some (.value (A.machine.global name))
  | .unit => some (.value A.machine.unit)

/-- The value of an operand. -/
def value (c : Config Val State) (v : IR.Value) : Option Val := (A.word c v).bind Word.value?

/-- The address of a part of what is at an address. -/
def part (c : Config Val State) (dest : Register) (ptr : IR.Value) (projection : Projection Val) :
    Option (Config Val State) := do
  match ← A.word c ptr with
  | .value a => c.compute dest (A.machine.address projection a)
  | .slot r path => some (c.define dest (.slot r (path ++ [projection])))

/-- Runs one instruction. -/
def execute (c : Config Val State) : Instruction → Option (Config Val State)
  | .alloca dest _ => some (c.define dest (A.slotWord dest))
  | .load dest ptr ty => do
    match ← A.word c ptr with
    | .value a => c.compute dest (A.machine.load ty a)
    | .slot r path => some (c.define dest (.value (A.machine.projectAll path (← c.slots r))))
  | .store ptr value => do
    let v ← A.value c value
    match ← A.word c ptr with
    | .value a => c.perform (A.machine.store a v) fun c' _ => c'
    | .slot r [] => some (c.fill r v)
    | .slot _ (_ :: _) => none
  | .binary dest op left right ty => do
    c.compute dest (A.machine.binary op ty (← A.value c left) (← A.value c right))
  | .unary dest op value => do c.compute dest (A.machine.unary op (← A.value c value))
  | .call (some dest) function args => do
    c.compute dest (A.machine.call function (← args.mapM (A.value c)))
  | .call none function args => do
    c.perform (A.machine.call function (← args.mapM (A.value c))) fun c' _ => c'
  | .cast dest value source target => do
    c.compute dest (A.machine.cast source target (← A.value c value))
  | .materialize dest value ty => do
    c.compute dest (A.machine.materialize ty (← A.value c value))
  | .sliceData dest value => do c.compute dest (A.machine.sliceData (← A.value c value))
  | .element dest ptr index ty => do A.part c dest ptr (.element ty (← A.value c index))
  | .field dest ptr struct place => A.part c dest ptr (.field struct place)

/-- Goes to the start of a block. -/
def goto (c : Config Val State) (target : BlockId) : Option (Status Val State) :=
  (A.blocks[target]?).map fun block =>
    .running { c with block := target, code := block.instructions }

/-- Does what a terminator says. -/
def finish (c : Config Val State) : Terminator → Option (Status Val State)
  | .ret none => some (.returned none c.state)
  | .ret (some value) => do some (.returned (some (← A.value c value)) c.state)
  | .jump target => A.goto c target
  | .branch condition thenTarget elseTarget => do
    let decision ← A.machine.truth (← A.value c condition)
    A.goto c (if decision then thenTarget else elseTarget)
  | .unreachable => none

/-- Runs the next instruction, or the terminator if there is none left. -/
def step (c : Config Val State) : Option (Status Val State) :=
  match c.code with
  | i :: rest => do some (.running (← A.execute { c with code := rest } i))
  | [] => do A.finish c (← (← A.blocks[c.block]?).terminator)

/-! ### Runs -/

/-- `A.Steps n c c'` says that `c` comes to `c'` in `n` steps. -/
inductive Steps : Nat → Config Val State → Config Val State → Prop where
  | refl (c : Config Val State) : Steps 0 c c
  | head {n : Nat} {c c' c'' : Config Val State} (first : A.step c = some (.running c'))
      (rest : Steps n c' c'') : Steps (n + 1) c c''

/-- The run from a configuration returns after some steps and one more, with a value and a state. -/
def ReturnsIn (n : Nat) (c : Config Val State) (v : Option Val) (s : State) : Prop :=
  ∃ c', A.Steps n c c' ∧ A.step c' = some (.returned v s)

/-- The run from a configuration returns. -/
def Returns (c : Config Val State) (v : Option Val) (s : State) : Prop :=
  ∃ n, A.ReturnsIn n c v s

end Activation

/-- A call of the function with arguments returns, with a value and a state. -/
def IR.Function.Returns (g : Function) (M : Machine Val State) (cellOf : Register → Option Val)
    (args : List Val) (s : State) (v : Option Val) (s' : State) : Prop :=
  ∃ block, g.blocks[g.entry]? = some block ∧
    (⟨M, g.blocks, args, cellOf⟩ : Activation Val State).Returns
      ⟨g.entry, block.instructions, fun _ => none, fun _ => none, s⟩ v s'

namespace Activation

variable {A : Activation Val State} {n m : Nat} {c c' c'' : Config Val State} {v : Option Val}
  {s : State}

theorem Steps.trans (h : A.Steps n c c') (h' : A.Steps m c' c'') : A.Steps (n + m) c c'' := by
  induction h with
  | refl c => rwa [Nat.zero_add]
  | @head n c _ _ first _ ih =>
    rw [Nat.add_right_comm]
    exact .head first (ih h')

theorem Steps.single (h : A.step c = some (.running c')) : A.Steps 1 c c' := .head h (.refl c')

/-- A run that returns goes through every configuration on its way, and has as many steps less
ahead of it there. -/
theorem Steps.returnsIn (h : A.Steps n c c') (hret : A.ReturnsIn m c v s) :
    ∃ k, m = n + k ∧ A.ReturnsIn k c' v s := by
  induction h generalizing m with
  | refl c => exact ⟨m, (Nat.zero_add m).symm, hret⟩
  | @head n c _ _ first _ ih =>
    obtain ⟨last, hsteps, hlast⟩ := hret
    cases hsteps with
    | refl =>
      -- There is a next configuration, so this is not where the run returns.
      rw [first] at hlast
      cases hlast
    | head first' rest' =>
      rw [first, Option.some.injEq, Status.running.injEq] at first'
      subst first'
      obtain ⟨k, rfl, hk⟩ := ih ⟨last, rest', hlast⟩
      exact ⟨k, Nat.add_right_comm n k 1, hk⟩

theorem Returns.eq {v' : Option Val} {s' : State} (h : A.Returns c v s)
    (h' : A.Returns c v' s') : v = v' ∧ s = s' := by
  obtain ⟨n, _, hsteps, hlast⟩ := h
  obtain ⟨m, hret⟩ := h'
  obtain ⟨k, -, _, hsteps', hlast'⟩ := hsteps.returnsIn hret
  cases hsteps' with
  | refl =>
    rw [hlast, Option.some.injEq, Status.returned.injEq] at hlast'
    exact hlast'
  | head first _ =>
    rw [hlast] at first
    cases first

end Activation

end Laye
