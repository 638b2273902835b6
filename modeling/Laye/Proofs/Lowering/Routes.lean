import Laye.Proofs.Lowering.Blocks

/-!
# The ways through control structures

The parts of a control structure are lowered one after the other, each from a builder of its own. If
they extend the builders they start with, then much is known at each stage: which blocks are open,
which are still empty, and how a builder comes from the ones before it. `Builder.Branches`,
`Builder.Joins`, `Builder.Circles` and `Builder.Detours` collect this for conditionals, loops and
short-circuit operators.
-/

namespace Laye

open IR
open Lower (Advances Extending)

namespace Builder

variable {loop : Option LoopTargets} {label : String} {value lhs rhs : IR.Value} {isAnd : Bool}
  {slot : Register} {b b1 b2 b3 : Builder}

/-! ### Conditionals -/

/-- The condition leads from `b` to `b1`, and from the fork after it the first branch leads to
`b2`. -/
structure Branches (loop : Option LoopTargets) (label : String) (value : IR.Value)
    (b b1 b2 : Builder) : Prop where
  condition : b.Extends b1
  isOpen : b1.IsOpen
  fork : b1.Extends (b1.enterThen label value)
  openFork : (b1.enterThen label value).IsOpen
  admits : (b1.enterThen label value).Admits loop
  branch : (b1.enterThen label value).Extends b2

variable {condition : Lower IR.Value}

/-- The run of a condition and of the first branch gives the stages of a fork. -/
theorem branches {thenBody : Lower Unit} (hopen : b.IsOpen) (hadmits : b.Admits loop)
    (hcond : Advances condition) (hthen : Extending loop thenBody)
    (hrun : condition b = .ok (value, b1))
    (hrun' : thenBody (b1.enterThen label value) = .ok ((), b2)) :
    Branches loop label value b b1 b2 := by
  obtain ⟨hext, hopen1⟩ := hcond hopen hrun
  have hfork : b1.Extends (b1.enterThen label value) :=
    (Extends.refl b1).fork hopen1 (by simp [Terminator.targets])
  have hopenFork : (b1.enterThen label value).IsOpen := isOpen_fork hopen1 _ _
  have hadmits' := hadmits.mono (hext.trans hfork).length_le
  exact ⟨hext, hopen1, hfork, hopenFork, hadmits', hthen hopenFork hadmits' hrun'⟩

namespace Branches

variable (h : Branches loop label value b b1 b2)
include h

theorem current_lt : b2.current < b2.blocks.length := h.branch.current_lt h.openFork.lt

theorem emptyAt : b2.EmptyAt (b1.blocks.length + 1) := h.branch.emptyAt_fork h.isOpen.lt

theorem started (hstarted : start.Extends b) : start.Extends (b1.enterThen label value) :=
  hstarted.trans (h.condition.trans h.fork)

theorem resume : b2.Leads (b2.resumeAt (b1.blocks.length + 1)) :=
  .resumeAt h.current_lt h.emptyAt.openAt.lt (Nat.succ_ne_zero _)

theorem move : b2.Leads (b2.movedTo (b1.blocks.length + 1)) := .move h.emptyAt.openAt.lt

end Branches

/-- From the second block of the fork, the other branch leads to `b3`. -/
structure Joins (loop : Option LoopTargets) (label : String) (value : IR.Value)
    (b b1 b2 b3 : Builder) : Prop extends Branches loop label value b b1 b2 where
  openElse : (b2.movedTo (b1.blocks.length + 1)).IsOpen
  admitsElse : (b2.movedTo (b1.blocks.length + 1)).Admits loop
  other : (b2.movedTo (b1.blocks.length + 1)).Extends b3

/-- With the run of the second branch, these are the stages of a conditional. -/
theorem Branches.joins {elseBody : Lower Unit} (h : Branches loop label value b b1 b2)
    (helse : Extending loop elseBody)
    (hrun : elseBody (b2.movedTo (b1.blocks.length + 1)) = .ok ((), b3)) :
    Joins loop label value b b1 b2 b3 := by
  have hopen : (b2.movedTo (b1.blocks.length + 1)).IsOpen := h.emptyAt.openAt
  have hadmits : (b2.movedTo (b1.blocks.length + 1)).Admits loop :=
    h.admits.mono h.branch.length_le
  exact ⟨h, hopen, hadmits, helse hopen hadmits hrun⟩

namespace Joins

variable (h : Joins loop label value b b1 b2 b3)
include h

theorem thenExit_lt : b2.current < b3.blocks.length :=
  Nat.lt_of_lt_of_le h.current_lt h.other.length_le

theorem elseExit_lt : b3.current < b3.blocks.length := h.other.current_lt h.openElse.lt

theorem exits_ne : b3.current ≠ b2.current :=
  h.other.current_ne h.current_lt h.branch.current_ne_fork.symm

theorem join : b3.Leads (b3.joined b2.current b3.current) := .joined h.thenExit_lt h.elseExit_lt

end Joins

/-! ### Loops -/

/-- The condition leads to `b1` from the block it starts in, and the body from there to `b2`. -/
structure Circles (value : IR.Value) (b b1 b2 : Builder) : Prop where
  isOpen : b.IsOpen
  openCondition : b1.IsOpen
  condition : b.enterLoop.Extends b1
  openBody : (b1.enterBody b.blocks.length value).IsOpen
  admits : (b1.enterBody b.blocks.length value).Admits (some b.loopTargets)
  body : (b1.enterBody b.blocks.length value).Extends b2

/-- The runs of a condition and of a body give the stages of a loop. -/
theorem circles {body : LoopTargets → Lower Unit} (hopen : b.IsOpen) (hcond : Advances condition)
    (hbody : ∀ targets, Extending (some targets) (body targets))
    (hrun : condition b.enterLoop = .ok (value, b1))
    (hrun' : body b.loopTargets (b1.enterBody b.blocks.length value) = .ok ((), b2)) :
    Circles value b b1 b2 := by
  obtain ⟨hext, hopen1⟩ := hcond (openAt_enterLoop hopen (n := 0) (by decide)) hrun
  have hopenBody : (b1.enterBody b.blocks.length value).IsOpen :=
    (emptyAt_enterBody hopen hext (n := 0) (by decide) value).openAt
  have hadmits : (b1.enterBody b.blocks.length value).Admits (some b.loopTargets) :=
    admits_loopTargets hopen (by simpa [enterBody] using hext.length_le)
  exact ⟨hopen, hopen1, hext, hopenBody, hadmits, hbody _ hopenBody hadmits hrun'⟩

namespace Circles

variable (h : Circles value b b1 b2)
include h

theorem enter : b.Extends b.enterLoop := (Extends.refl b).enterLoop h.isOpen

theorem openLoop : b.enterLoop.IsOpen := openAt_enterLoop h.isOpen (n := 0) (by decide)

theorem emptyBody : (b1.enterBody b.blocks.length value).EmptyAt (b.blocks.length + 1) :=
  emptyAt_enterBody h.isOpen h.condition (n := 0) (by decide) value

theorem emptyEnd : (b1.enterBody b.blocks.length value).EmptyAt (b.blocks.length + 2) :=
  emptyAt_enterBody h.isOpen h.condition (n := 1) (by decide) value

theorem emptyAfter : (b2.leaveLoop b.blocks.length).EmptyAt (b.blocks.length + 2) :=
  emptyAt_leaveLoop h.emptyEnd h.body

theorem branch : b1.Leads (b1.enterBody b.blocks.length value) :=
  .enterBody h.openCondition (by simpa [enterBody] using h.emptyEnd.openAt.lt)

theorem leave : b2.Leads (b2.leaveLoop b.blocks.length) :=
  .leaveLoop (h.body.current_lt h.openBody.lt)
    (Nat.lt_of_lt_of_le h.emptyEnd.openAt.lt h.body.length_le)
    (Extends.ne_entry h.isOpen.lt (Nat.le_refl _))

end Circles

/-! ### Short-circuit operators -/

/-- The left operand ends at `b1`, and from the branch after it the right one leads to `b2`. -/
structure Detours (isAnd : Bool) (slot : Register) (lhs : IR.Value) (b1 b2 : Builder) : Prop where
  openLeft : b1.IsOpen
  openRight : (b1.enterCircuit isAnd slot lhs).IsOpen
  right : (b1.enterCircuit isAnd slot lhs).Extends b2
  openEnd : b2.IsOpen

/-- The run of the right operand gives the stages of a short-circuit operator. -/
theorem detours {right : Lower IR.Value} (hopen : b1.IsOpen) (hright : Advances right)
    (hrun : right (b1.enterCircuit isAnd slot lhs) = .ok (rhs, b2)) :
    Detours isAnd slot lhs b1 b2 := by
  have hfork : (b1.enterCircuit isAnd slot lhs).IsOpen := isOpen_enterCircuit hopen
  obtain ⟨hext, hopen2⟩ := hright hfork hrun
  exact ⟨hopen, hfork, hext, hopen2⟩

namespace Detours

variable (h : Detours isAnd slot lhs b1 b2)
include h

theorem branch : b1.Extends (b1.enterCircuit isAnd slot lhs) :=
  ((Extends.refl b1).instruction h.openLeft rfl).trans
    (extends_enterCircuit h.openLeft isAnd slot lhs)

theorem end_lt : b1.blocks.length + 1 < b2.blocks.length :=
  Nat.lt_of_lt_of_le (openAt_enterCircuit h.openLeft).lt h.right.length_le

theorem leave (rhs : IR.Value) : b2.Leads (b2.leaveCircuit slot rhs (b1.blocks.length + 1)) :=
  .leaveCircuit h.openEnd slot rhs h.end_lt (Nat.succ_ne_zero _)

/-- The operator ends with a load of its slot. -/
theorem finish (rhs : IR.Value) : b2.Leads (b2.afterCircuit slot rhs (b1.blocks.length + 1)) :=
  (h.leave rhs).trans (.afterCircuit h.openLeft h.right rhs)

end Detours

end Builder

end Laye
