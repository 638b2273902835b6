import Laye.Proofs.Lowering.Edits

/-!
# The stages of lowering

A control structure is lowered in stages: code that builds blocks stands between the pieces of code
that come from its parts. This module names the builders at the stages (`Builder.fork`,
`Builder.resumeAt`, …) and states, for each structure, which builders its parts start and end
with. `Lowering.shortCircuit_stages`, `Lowering.ifThen_stages` and their like are all that later
proofs use of the definitions.
-/

namespace Laye

namespace Builder

/-- The builder after two blocks were added and the current block was ended by a terminator. It is
at the first of the two. -/
def fork (b : Builder) (labels : String × String) (t : IR.Terminator) : Builder :=
  (((b.withBlock labels.1).withBlock labels.2).withTerminator b.current t).movedTo b.blocks.length

/-- The builder after the current block went on to another block, and it is there. -/
def resumeAt (b : Builder) (target : IR.BlockId) : Builder :=
  (b.fallingFrom b.current target).movedTo target

/-- The terminator by which a short-circuit operator skips its right operand or goes to it. -/
def circuitBranch (b : Builder) (isAnd : Bool) (lhs : IR.Value) : IR.Terminator :=
  if isAnd then .branch lhs b.blocks.length (b.blocks.length + 1)
  else .branch lhs (b.blocks.length + 1) b.blocks.length

/-- The builder at the right operand of a short-circuit operator, whose result goes to `slot`. -/
def enterCircuit (b : Builder) (isAnd : Bool) (slot : IR.Register) (lhs : IR.Value) : Builder :=
  (b.withInstruction (.store (.register slot) lhs)).fork (Lowering.circuitLabels isAnd)
    (b.circuitBranch isAnd lhs)

/-- The builder after the right operand of a short-circuit operator, at the block `target` that
follows the operator. -/
def leaveCircuit (b : Builder) (slot : IR.Register) (rhs : IR.Value) (target : IR.BlockId) :
    Builder :=
  (b.withInstruction (.store (.register slot) rhs)).resumeAt target

/-- The builder at the `then` branch of a conditional. -/
def enterThen (b : Builder) (elseLabel : String) (condition : IR.Value) : Builder :=
  b.fork ("if.then", elseLabel) (.branch condition b.blocks.length (b.blocks.length + 1))

/-- The builder after both branches of a conditional, which end in the blocks `thenExit` and
`elseExit`. -/
def joined (b : Builder) (thenExit elseExit : IR.BlockId) : Builder :=
  if b.isClosed thenExit && b.isClosed elseExit then b
  else (((b.withBlock "if.end").fallingFrom thenExit b.blocks.length).fallingFrom elseExit
    b.blocks.length).movedTo b.blocks.length

/-- The builder after a slot got the first value of a variable, if there is one. -/
def withInitial (b : Builder) (slot : IR.Register) : Option IR.Value → Builder
  | none => b
  | some value => b.withInstruction (.store (.register slot) value)

/-- The builder with the three blocks of a loop. -/
def withLoop (b : Builder) : Builder :=
  ((b.withBlock "while.cond").withBlock "while.body").withBlock "while.end"

@[simp] theorem withLoop_length (b : Builder) :
    b.withLoop.blocks.length = b.blocks.length + 3 := by
  simp [withLoop]

@[simp] theorem withLoop_current (b : Builder) : b.withLoop.current = b.current := rfl

/-- Where the jumps of a loop go whose blocks come next. -/
def loopTargets (b : Builder) : LoopTargets := ⟨b.blocks.length, b.blocks.length + 2⟩

/-- The builder at the condition of a loop. -/
def enterLoop (b : Builder) : Builder := b.withLoop.resumeAt b.blocks.length

/-- The builder at the body of a loop whose blocks start at `first`. -/
def enterBody (b : Builder) (first : IR.BlockId) (condition : IR.Value) : Builder :=
  (b.withTerminator b.current (.branch condition (first + 1) (first + 2))).movedTo (first + 1)

/-- The builder after a loop whose blocks start at `first`. -/
def leaveLoop (b : Builder) (first : IR.BlockId) : Builder :=
  (b.fallingFrom b.current first).movedTo (first + 2)

end Builder

namespace Lowering

open Lower

theorem computed_run (i : IR.Register → IR.Instruction) (b : Builder) :
    computed i b = .ok (.value (.register b.nextRegister), b.withDefinition i) := rfl

variable {symbols : SymbolTable} {b b' : Builder} {condition : Lower IR.Value}
  {thenBody elseBody : Lower Unit} {fault : Fault} {body : LoopTargets → Lower Unit}

theorem symbol_stages {id : SymbolId} {span : Span} {op : Operand}
    (h : symbol symbols id span b = .ok (op, b')) :
    b' = b ∧ ((∃ slot, b.slotOf? id = some slot ∧ op = .place (.register slot)) ∨
      (b.slotOf? id = none ∧ (symbols.symbolAt id).kind = .function ∧
        op = .value (.global (symbols.symbolAt id).name))) := by
  simp only [symbol, bind_eq_ok, slotOf?_run, Except.ok.injEq, Prod.mk.injEq, ↓existsAndEq,
    true_and] at h
  cases hslot : b.slotOf? id with
  | some slot =>
    rw [hslot, pure_eq_ok, Prod.mk.injEq] at h
    exact ⟨h.2.symm, .inl ⟨slot, rfl, h.1.symm⟩⟩
  | none =>
    rw [hslot] at h
    by_cases hkind : (symbols.symbolAt id).kind = .function
    · simp only [hkind, if_true, pure_eq_ok, Prod.mk.injEq] at h
      exact ⟨h.2.symm, .inr ⟨rfl, hkind, h.1.symm⟩⟩
    · simp only [hkind, if_false] at h
      exact absurd h refuse_ne_ok

/-- The operands run one after the other, the right one in a block of its own. -/
theorem shortCircuit_stages {isAnd : Bool} {left right : Lower IR.Value} {op : Operand}
    (h : shortCircuit isAnd left right b = .ok (op, b')) :
    ∃ lhs b1 rhs b2 b3, left (b.withSlot .bool) = .ok (lhs, b1) ∧
      right (b1.enterCircuit isAnd b.nextRegister lhs) = .ok (rhs, b2) ∧
      b3 = b2.leaveCircuit b.nextRegister rhs (b1.blocks.length + 1) ∧
      op = .value (.register b3.nextRegister) ∧
      b' = b3.withDefinition fun dest => .load dest (.register b.nextRegister) .bool := by
  simp only [shortCircuit, bind_eq_ok, reserve_run, storeSlot_run, newBlock_run, close_run,
    moveTo_run, fallInto_run, computed_run, Except.ok.injEq, Prod.mk.injEq, ↓existsAndEq, true_and,
    and_true, exists_and_left, exists_const] at h
  obtain ⟨lhs, b1, hleft, rhs, b2, hright, hop, hb'⟩ := h
  refine ⟨lhs, b1, rhs, b2, _, hleft, ?_, rfl, ?_, ?_⟩
  · rw [← hright]
    simp [Builder.enterCircuit, Builder.fork, Builder.circuitBranch]
  · rw [← hop]
    simp [Builder.leaveCircuit, Builder.resumeAt]
  · rw [← hb']
    simp [Builder.leaveCircuit, Builder.resumeAt]

/-- The condition runs first, and then the body in a block of its own. -/
theorem ifThen_stages (h : ifThen condition thenBody b = .ok ((), b')) :
    ∃ value b1 b2, condition b = .ok (value, b1) ∧
      thenBody (b1.enterThen "if.end" value) = .ok ((), b2) ∧
      b' = b2.resumeAt (b1.blocks.length + 1) := by
  simp only [ifThen, bind_eq_ok, newBlock_run, close_run, moveTo_run, fallInto_run,
    Except.ok.injEq, Prod.mk.injEq, ↓existsAndEq, true_and, exists_const] at h
  obtain ⟨value, b1, hcondition, _, b2, hthen, hb'⟩ := h
  refine ⟨value, b1, b2, hcondition, ?_, ?_⟩
  · rw [← hthen]
    simp [Builder.enterThen, Builder.fork]
  · rw [← hb']
    simp [Builder.resumeAt]

theorem ifThen_fault (h : ifThen condition thenBody b = .error fault) :
    condition b = .error fault ∨ ∃ value b1, condition b = .ok (value, b1) ∧
      thenBody (b1.enterThen "if.end" value) = .error fault := by
  simp only [ifThen, bind_eq_error, newBlock_run, close_run, moveTo_run, fallInto_run, reduceCtorEq,
    Except.ok.injEq, Prod.mk.injEq, ↓existsAndEq, true_and, false_or, and_false, exists_const,
    or_false] at h
  refine h.imp_right ?_
  rintro ⟨value, b1, hcondition, hthen⟩
  refine ⟨value, b1, hcondition, ?_⟩
  rw [← hthen]
  simp [Builder.enterThen, Builder.fork]

theorem join_run (thenExit elseExit : IR.BlockId) (b : Builder) :
    join thenExit elseExit b = .ok ((), b.joined thenExit elseExit) := by
  show (if (b.isClosed thenExit && b.isClosed elseExit) = true then pure () else _ : Lower Unit) b
    = _
  unfold Builder.joined
  split
  · rfl
  · simp only [bind_eq_ok, newBlock_run, fallFrom_run, moveTo_run, Except.ok.injEq, Prod.mk.injEq,
      ↓existsAndEq, true_and, exists_const]

/-- The condition runs first, then one branch, then the other, each in its block. -/
theorem ifThenElse_stages (h : ifThenElse condition thenBody elseBody b = .ok ((), b')) :
    ∃ value b1 b2 b3, condition b = .ok (value, b1) ∧
      thenBody (b1.enterThen "if.else" value) = .ok ((), b2) ∧
      elseBody (b2.movedTo (b1.blocks.length + 1)) = .ok ((), b3) ∧
      b' = b3.joined b2.current b3.current := by
  simp only [ifThenElse, bind_eq_ok, newBlock_run, close_run, moveTo_run, currentBlock_run,
    join_run, Except.ok.injEq, Prod.mk.injEq, ↓existsAndEq, true_and, exists_const] at h
  obtain ⟨value, b1, hcondition, _, b2, hthen, _, b3, helse, hb'⟩ := h
  refine ⟨value, b1, b2, b3, hcondition, ?_, ?_, hb'.symm⟩
  · rw [← hthen]
    simp [Builder.enterThen, Builder.fork]
  · rw [← helse]
    simp

theorem ifThenElse_fault (h : ifThenElse condition thenBody elseBody b = .error fault) :
    condition b = .error fault ∨ ∃ value b1, condition b = .ok (value, b1) ∧
      (thenBody (b1.enterThen "if.else" value) = .error fault ∨
        ∃ b2, thenBody (b1.enterThen "if.else" value) = .ok ((), b2) ∧
          elseBody (b2.movedTo (b1.blocks.length + 1)) = .error fault) := by
  simp only [ifThenElse, bind_eq_error, newBlock_run, close_run, moveTo_run, currentBlock_run,
    join_run, reduceCtorEq, Except.ok.injEq, Prod.mk.injEq, ↓existsAndEq, true_and, false_or,
    and_false, exists_const, or_false] at h
  refine h.imp_right ?_
  rintro ⟨value, b1, hcondition, hrest⟩
  refine ⟨value, b1, hcondition, hrest.imp ?_ ?_⟩
  · intro hthen
    rw [← hthen]
    simp [Builder.enterThen, Builder.fork]
  · rintro ⟨_, b2, hthen, helse⟩
    refine ⟨b2, ?_, ?_⟩
    · rw [← hthen]
      simp [Builder.enterThen, Builder.fork]
    · rw [← helse]
      simp

/-- The condition runs in the first block of the loop, and the body in the second. -/
theorem loop_stages (h : loop condition body b = .ok ((), b')) :
    ∃ value b1 b2, condition b.enterLoop = .ok (value, b1) ∧
      body b.loopTargets (b1.enterBody b.blocks.length value) = .ok ((), b2) ∧
      b' = b2.leaveLoop b.blocks.length := by
  simp only [loop, bind_eq_ok, newBlock_run, close_run, moveTo_run, fallInto_run,
    Except.ok.injEq, Prod.mk.injEq, ↓existsAndEq, true_and, exists_const] at h
  obtain ⟨value, b1, hcondition, _, b2, hbody, hb'⟩ := h
  refine ⟨value, b1, b2, ?_, ?_, ?_⟩
  · rw [← hcondition]
    simp [Builder.enterLoop, Builder.withLoop, Builder.resumeAt]
  · rw [← hbody]
    simp [Builder.enterBody, Builder.loopTargets]
  · rw [← hb']
    simp [Builder.leaveLoop]

theorem loop_fault (h : loop condition body b = .error fault) :
    condition b.enterLoop = .error fault ∨ ∃ value b1, condition b.enterLoop = .ok (value, b1) ∧
      body b.loopTargets (b1.enterBody b.blocks.length value) = .error fault := by
  simp only [loop, bind_eq_error, newBlock_run, close_run, moveTo_run, fallInto_run, reduceCtorEq,
    Except.ok.injEq, Prod.mk.injEq, ↓existsAndEq, true_and, false_or, and_false, exists_const,
    or_false] at h
  refine h.imp ?_ ?_
  · intro hcondition
    rw [← hcondition]
    simp [Builder.enterLoop, Builder.withLoop, Builder.resumeAt]
  · rintro ⟨value, b1, hcondition, hbody⟩
    refine ⟨value, b1, ?_, ?_⟩
    · rw [← hcondition]
      simp [Builder.enterLoop, Builder.withLoop, Builder.resumeAt]
    · rw [← hbody]
      simp [Builder.enterBody, Builder.loopTargets]

/-- The value runs after the slot is reserved and before the variable is bound. -/
theorem binding_stages {symbol : SymbolId} {value : Option Typed.Expr}
    (h : binding symbols symbol value b = .ok ((), b')) :
    ∃ initial b1, optionalValue symbols value (b.withSlot (symbols.symbolAt symbol).ty.shape)
        = .ok (initial, b1) ∧
      b' = (b1.withInitial b.nextRegister initial).withVariable symbol b.nextRegister := by
  simp only [binding, bind_eq_ok, reserve_run, Except.ok.injEq, Prod.mk.injEq, ↓existsAndEq,
    true_and] at h
  obtain ⟨initial, b1, hvalue, hrest⟩ := h
  refine ⟨initial, b1, hvalue, ?_⟩
  cases initial with
  | none =>
    simp only [bindSlot_run, Except.ok.injEq, Prod.mk.injEq, true_and] at hrest
    exact hrest.symm
  | some _ =>
    simp only [bind_eq_ok, storeSlot_run, bindSlot_run, Except.ok.injEq, Prod.mk.injEq,
      ↓existsAndEq, true_and, exists_const] at hrest
    exact hrest.symm

end Lowering

namespace Typed.Stmt

open Lower

variable {symbols : SymbolTable} {loop : Option LoopTargets}

/-- Nothing is lowered in a block that is closed. -/
theorem lowerBlock_of_closed {b : Builder} (hclosed : b.isClosed b.current = true)
    (stmts : List Stmt) : lowerBlock symbols loop stmts b = .ok ((), b) := by
  cases stmts with
  | nil => rfl
  | cons _ _ =>
    unfold lowerBlock
    simp only [bind_eq_ok, currentBlock_run, isClosed_run, Except.ok.injEq, Prod.mk.injEq,
      ↓existsAndEq, true_and, hclosed, if_true, pure_eq_ok]

theorem lowerBlock_cons_stages {b b' : Builder} {stmt : Stmt} {rest : List Stmt} (hopen : b.IsOpen)
    (h : lowerBlock symbols loop (stmt :: rest) b = .ok ((), b')) :
    ∃ b1, stmt.lower symbols loop b = .ok ((), b1) ∧
      lowerBlock symbols loop rest b1 = .ok ((), b') := by
  unfold lowerBlock at h
  simp only [bind_eq_ok, currentBlock_run, isClosed_run, Except.ok.injEq, Prod.mk.injEq,
    ↓existsAndEq, true_and, hopen.isClosed, Bool.false_eq_true, if_false] at h
  obtain ⟨_, b1, hstmt, hrest⟩ := h
  exact ⟨b1, hstmt, hrest⟩

theorem lowerBlock_cons_fault {b : Builder} {stmt : Stmt} {rest : List Stmt} {fault : Fault}
    (hopen : b.IsOpen) (h : lowerBlock symbols loop (stmt :: rest) b = .error fault) :
    stmt.lower symbols loop b = .error fault ∨ ∃ b1, stmt.lower symbols loop b = .ok ((), b1) ∧
      lowerBlock symbols loop rest b1 = .error fault := by
  unfold lowerBlock at h
  simp only [bind_eq_error, currentBlock_run, isClosed_run, reduceCtorEq, Except.ok.injEq,
    Prod.mk.injEq, ↓existsAndEq, true_and, false_or, hopen.isClosed, Bool.false_eq_true,
    if_false] at h
  refine h.imp_right ?_
  rintro ⟨_, b1, hstmt, hrest⟩
  exact ⟨b1, hstmt, hrest⟩

end Typed.Stmt

end Laye
