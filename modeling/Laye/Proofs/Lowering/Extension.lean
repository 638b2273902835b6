import Laye.Proofs.Lowering.Traversal

/-!
# Lowering extends the builder

Every expression and statement is lowered by changes to the current block and to new blocks
(`Builder.Extends`). An expression leaves the current block open (`Lower.Advances`); a statement may
close it (`Lower.Extending`).

The proofs follow the structure of the code: each way to combine steps of lowering has a lemma, and
`Lower.Advances.closed` and `Typed.Stmt.extending_lower` put them together for expressions and
statements.
-/

namespace Laye

namespace Builder.Extends

variable {b b' : Builder}

/-! ### Extensions by the stages -/

theorem slot (h : b.Extends b') (ty : IR.Ty) : b.Extends (b'.withSlot ty) := h.tail (.slot b' ty)

theorem definition (h : b.Extends b') {i : IR.Register → IR.Instruction} (hopen : b'.IsOpen)
    (hdest : ∀ r, (i r).dest? = some r) (hcode : ∀ r, (i r).isAlloca = false) :
    b.Extends (b'.withDefinition i) :=
  h.tail (.definition b' i h.owns_current hopen hdest hcode)

/-- An instruction at the end of an open block extends the code. -/
theorem instruction (h : b.Extends b') {i : IR.Instruction} (hopen : b'.IsOpen)
    (hdest : i.dest? = none) : b.Extends (b'.withInstruction i) :=
  h.tail (.instruction b' i h.owns_current hopen hdest)

theorem block (h : b.Extends b') (label : String) : b.Extends (b'.withBlock label) :=
  h.tail (.block b' label)

variable {id : IR.BlockId}

theorem move (h : b.Extends b') (hown : b.Own id) (hlt : id < b'.blocks.length) :
    b.Extends (b'.movedTo id) :=
  h.tail (.move b' id hown hlt)

theorem terminator (h : b.Extends b') {t : IR.Terminator} (hown : b.Own id) (hopen : b'.OpenAt id)
    (htargets : ∀ target ∈ t.targets, target < b'.blocks.length ∧ target ≠ entry) :
    b.Extends (b'.withTerminator id t) :=
  h.tail (.terminator b' id t hown hopen htargets)

theorem ne_entry {b : Builder} (hlt : b.current < b.blocks.length) (hid : b.blocks.length ≤ id) :
    id ≠ entry := by
  have : (0 : Nat) ≤ b.current := Nat.zero_le _
  exact Nat.ne_of_gt (Nat.lt_of_lt_of_le (Nat.lt_of_le_of_lt this hlt) hid)

theorem fallingFrom (h : b.Extends b') {target : IR.BlockId} (hown : b.Own id)
    (hlt : id < b'.blocks.length) (htarget : target < b'.blocks.length) (hne : target ≠ entry) :
    b.Extends (b'.fallingFrom id target) := by
  unfold Builder.fallingFrom
  split
  · exact h
  · rename_i hclosed
    refine h.terminator hown (openAt_of_not_closed hlt (by simpa using hclosed)) ?_
    intro t ht
    rw [List.mem_singleton.mp ht]
    exact ⟨htarget, hne⟩

end Builder.Extends

@[simp] theorem Builder.fallingFrom_nextRegister (b : Builder) (id target : IR.BlockId) :
    (b.fallingFrom id target).nextRegister = b.nextRegister := by
  unfold Builder.fallingFrom; split <;> rfl

@[simp] theorem Builder.fallingFrom_slots (b : Builder) (id target : IR.BlockId) :
    (b.fallingFrom id target).slots = b.slots := by
  unfold Builder.fallingFrom; split <;> rfl

@[simp] theorem Builder.fallingFrom_length (b : Builder) (id target : IR.BlockId) :
    (b.fallingFrom id target).blocks.length = b.blocks.length := by
  unfold Builder.fallingFrom; split <;> simp

theorem Builder.OpenAt.fallingFrom {b : Builder} {id closed target : IR.BlockId}
    (h : b.OpenAt id) (hne : closed ≠ id) : (b.fallingFrom closed target).OpenAt id := by
  unfold Builder.fallingFrom
  split
  · exact h
  · exact h.withTerminator hne _

namespace Builder

variable {b b' : Builder}

@[simp] theorem fork_length (b : Builder) (labels : String × String) (t : IR.Terminator) :
    (b.fork labels t).blocks.length = b.blocks.length + 2 := by
  simp [fork]

@[simp] theorem fork_current (b : Builder) (labels : String × String) (t : IR.Terminator) :
    (b.fork labels t).current = b.blocks.length := rfl

@[simp] theorem fork_nextRegister (b : Builder) (labels : String × String) (t : IR.Terminator) :
    (b.fork labels t).nextRegister = b.nextRegister := rfl

/-- The first block of a fork is open. -/
theorem isOpen_fork (hopen : b.IsOpen) (labels : String × String) (t : IR.Terminator) :
    (b.fork labels t).IsOpen :=
  ((openAt_withBlock b labels.1).withBlock labels.2).withTerminator (Nat.ne_of_lt hopen.lt) t

theorem openAt_fork (hopen : b.IsOpen) (labels : String × String) (t : IR.Terminator) :
    (b.fork labels t).OpenAt (b.blocks.length + 1) := by
  have hlt : b.current < b.blocks.length := hopen.lt
  have hblock : ((b.withBlock labels.1).withBlock labels.2).OpenAt (b.blocks.length + 1) := by
    simpa using openAt_withBlock (b.withBlock labels.1) labels.2
  exact hblock.withTerminator (Nat.ne_of_lt (Nat.lt_succ_of_lt hlt)) t

theorem Extends.fork (h : b.Extends b') (hopen : b'.IsOpen) {labels : String × String}
    {t : IR.Terminator} (htargets : t.targets ⊆ [b'.blocks.length, b'.blocks.length + 1]) :
    b.Extends (b'.fork labels t) := by
  have hlt : b'.current < b'.blocks.length := hopen.lt
  have hblocks : b.Extends ((b'.withBlock labels.1).withBlock labels.2) :=
    (h.block labels.1).block labels.2
  have hclosed : b.Extends (((b'.withBlock labels.1).withBlock labels.2).withTerminator
      b'.current t) := by
    refine hblocks.terminator h.owns_current ((hopen.withBlock _).withBlock _) ?_
    intro target htarget
    have hle : b'.blocks.length ≤ target ∧ target < b'.blocks.length + 2 := by
      rcases List.mem_cons.mp (htargets htarget) with rfl | hmem
      · exact ⟨Nat.le_refl _, Nat.lt_add_of_pos_right (by decide)⟩
      · rw [List.mem_singleton.mp hmem]
        exact ⟨Nat.le_succ _, Nat.lt_succ_self _⟩
    rw [withBlock_length, withBlock_length]
    exact ⟨hle.2, ne_entry hlt hle.1⟩
  refine hclosed.move (.inr h.length_le) ?_
  rw [withTerminator_length, withBlock_length, withBlock_length]
  exact Nat.lt_succ_of_lt (Nat.lt_succ_self _)

@[simp] theorem resumeAt_current (b : Builder) (target : IR.BlockId) :
    (b.resumeAt target).current = target := rfl

@[simp] theorem resumeAt_nextRegister (b : Builder) (target : IR.BlockId) :
    (b.resumeAt target).nextRegister = b.nextRegister := by
  simp [resumeAt]

@[simp] theorem resumeAt_slots (b : Builder) (target : IR.BlockId) :
    (b.resumeAt target).slots = b.slots := by
  simp [resumeAt]

@[simp] theorem resumeAt_length (b : Builder) (target : IR.BlockId) :
    (b.resumeAt target).blocks.length = b.blocks.length := by
  simp [resumeAt]

variable {target : IR.BlockId} {isAnd : Bool} {slot : IR.Register} {lhs : IR.Value}

theorem isOpen_resumeAt (hopen : b.OpenAt target) (hne : b.current ≠ target) :
    (b.resumeAt target).IsOpen :=
  hopen.fallingFrom hne

theorem Extends.resumeAt (h : b.Extends b') (hlt : b'.current < b'.blocks.length)
    (hown : b.Own target) (htarget : target < b'.blocks.length) (hne : target ≠ entry) :
    b.Extends (b'.resumeAt target) :=
  (h.fallingFrom h.owns_current hlt htarget hne).move hown (by simpa using htarget)

theorem Extends.current_ne (h : b.Extends b') {id : IR.BlockId} (hlt : id < b.blocks.length)
    (hne : b.current ≠ id) : b'.current ≠ id := by
  intro heq
  rcases h.owns_current with hcurrent | hnew
  · exact hne (hcurrent.symm.trans heq)
  · exact absurd (heq ▸ hnew) (Nat.not_le_of_lt hlt)

theorem isOpen_enterCircuit (hopen : b.IsOpen) : (b.enterCircuit isAnd slot lhs).IsOpen :=
  isOpen_fork (hopen.withInstruction _) _ _

theorem openAt_enterCircuit (hopen : b.IsOpen) :
    (b.enterCircuit isAnd slot lhs).OpenAt (b.blocks.length + 1) := by
  have hstored := hopen.withInstruction (.store (.register slot) lhs)
  simpa [enterCircuit] using openAt_fork hstored (Lowering.circuitLabels isAnd)
    (b.circuitBranch isAnd lhs)

theorem extends_enterCircuit (hopen : b.IsOpen) (isAnd : Bool) (slot : IR.Register)
    (lhs : IR.Value) : (b.withInstruction (.store (.register slot) lhs)).Extends
      (b.enterCircuit isAnd slot lhs) := by
  refine (Extends.refl _).fork (hopen.withInstruction _) ?_
  cases isAnd <;> simp [circuitBranch, IR.Terminator.targets]

theorem isOpen_leaveCircuit {rhs : IR.Value} (hopen : b.IsOpen)
    (hext : (b.enterCircuit isAnd slot lhs).Extends b') :
    (b'.leaveCircuit slot rhs (b.blocks.length + 1)).IsOpen := by
  have hne : (b.enterCircuit isAnd slot lhs).current ≠ b.blocks.length + 1 := by
    simp [enterCircuit]
  have hend : (b.enterCircuit isAnd slot lhs).OpenAt (b.blocks.length + 1) :=
    openAt_enterCircuit hopen
  exact isOpen_resumeAt ((hext.openAt hend hne.symm).withInstruction _)
    (hext.current_ne hend.lt hne)

end Builder

/-! ### Steps that leave the current block open -/

namespace Lower

open Builder (Extends)

/-- The step extends the builder, and leaves the current block open. -/
def Advances {α : Type} (x : Lower α) : Prop :=
  ∀ ⦃b : Builder⦄ ⦃a : α⦄ ⦃b' : Builder⦄, b.IsOpen → x b = .ok (a, b') → b.Extends b' ∧ b'.IsOpen

namespace Advances

variable {α β : Type}

theorem pure (a : α) : Advances (Pure.pure a : Lower α) := by
  intro b a' b' hopen h
  obtain ⟨-, rfl⟩ := h
  exact ⟨.refl b, hopen⟩

theorem bind {x : Lower α} {f : α → Lower β} (hx : Advances x) (hf : ∀ a, Advances (f a)) :
    Advances (x >>= f) := by
  intro b c b'' hopen h
  obtain ⟨a, _, hrun, hrest⟩ := bind_eq_ok.mp h
  obtain ⟨hext, hopen'⟩ := hx hopen hrun
  obtain ⟨hext', hopen''⟩ := hf a hopen' hrest
  exact ⟨hext.trans hext', hopen''⟩

theorem refuse (span : Span) (problem : Problem) : Advances (Lower.refuse span problem : Lower α) :=
  fun _ _ _ _ h => absurd h refuse_ne_ok

theorem define {i : IR.Register → IR.Instruction} (hdest : ∀ r, (i r).dest? = some r)
    (hcode : ∀ r, (i r).isAlloca = false) : Advances (Lower.define i) := by
  intro b v _ hopen h
  obtain ⟨-, rfl⟩ := h
  exact ⟨(Extends.refl b).definition hopen hdest hcode, hopen.withDefinition i⟩

theorem emit {i : IR.Instruction} (hdest : i.dest? = none) : Advances (Lower.emit i) := by
  intro b u _ hopen h
  obtain ⟨-, rfl⟩ := h
  exact ⟨(Extends.refl b).instruction hopen hdest, hopen.withInstruction i⟩

theorem reserve (ty : IR.Ty) : Advances (Lower.reserve ty) := by
  intro b slot _ hopen h
  obtain ⟨-, rfl⟩ := h
  exact ⟨(Extends.refl b).slot ty, hopen.withSlot ty⟩

theorem symbol (symbols : SymbolTable) (id : SymbolId) (span : Span) :
    Advances (Lowering.symbol symbols id span) := by
  intro b op b' hopen h
  obtain ⟨rfl, -⟩ := Lowering.symbol_stages h
  exact ⟨.refl b', hopen⟩

theorem shortCircuit {isAnd : Bool} {left right : Lower IR.Value} (hleft : Advances left)
    (hright : Advances right) : Advances (Lowering.shortCircuit isAnd left right) := by
  intro b op b' hopen h
  obtain ⟨lhs, b1, rhs, b2, _, hrun, hrun', rfl, -, rfl⟩ := Lowering.shortCircuit_stages h
  obtain ⟨hext1, hopen1⟩ := hleft (hopen.withSlot _) hrun
  have hfork : b.Extends (b1.enterCircuit isAnd b.nextRegister lhs) :=
    ((Extends.refl b).slot .bool |>.trans hext1).instruction hopen1 rfl |>.trans
      (Builder.extends_enterCircuit hopen1 isAnd b.nextRegister lhs)
  obtain ⟨hext2, hopen2⟩ := hright (Builder.isOpen_enterCircuit hopen1) hrun'
  have hend : (b1.enterCircuit isAnd b.nextRegister lhs).OpenAt (b1.blocks.length + 1) :=
    Builder.openAt_enterCircuit hopen1
  have hle : b.blocks.length ≤ b1.blocks.length := by simpa using hext1.length_le
  have hresumed : b.Extends (b2.leaveCircuit b.nextRegister rhs (b1.blocks.length + 1)) := by
    refine ((hfork.trans hext2).instruction hopen2 rfl).resumeAt ?_
      (.inr (Nat.le_succ_of_le hle)) ?_ (Extends.ne_entry hopen.lt (Nat.le_succ_of_le hle))
    · simpa using hopen2.lt
    · simpa using Nat.lt_of_lt_of_le hend.lt hext2.length_le
  have hopen3 : (b2.leaveCircuit b.nextRegister rhs (b1.blocks.length + 1)).IsOpen :=
    Builder.isOpen_leaveCircuit hopen1 hext2
  exact ⟨hresumed.definition hopen3 (fun _ => rfl) fun _ => rfl, hopen3.withDefinition _⟩

/-- Lowering an expression extends the builder and leaves the current block open. -/
theorem closed : Closed @Advances :=
  .of_steps pure refuse bind define emit reserve symbol shortCircuit

end Advances

end Lower

/-! ### Steps that may close the current block -/

namespace Builder

variable {b b' : Builder}

/-- The targets of the loop around the code are blocks that can be jumped to. -/
def Admits (b : Builder) (loop : Option LoopTargets) : Prop :=
  ∀ targets, loop = some targets →
    (targets.continueTarget < b.blocks.length ∧ targets.continueTarget ≠ entry) ∧
    (targets.breakTarget < b.blocks.length ∧ targets.breakTarget ≠ entry)

theorem admits_none (b : Builder) : b.Admits none := by
  intro targets h
  cases h

/-- The targets of a loop stay valid when blocks are added. -/
theorem Admits.mono {loop : Option LoopTargets} (h : b.Admits loop)
    (hle : b.blocks.length ≤ b'.blocks.length) : b'.Admits loop := by
  intro targets htargets
  obtain ⟨⟨hlt, hne⟩, hlt', hne'⟩ := h targets htargets
  exact ⟨⟨Nat.lt_of_lt_of_le hlt hle, hne⟩, Nat.lt_of_lt_of_le hlt' hle, hne'⟩

theorem reserves_withSlot (hlt : 0 < b.blocks.length) (ty : IR.Ty) :
    (b.withSlot ty).Reserves b.nextRegister := by
  have hentry : b.blocks[entry]? = some b.blocks[entry] := List.getElem?_eq_getElem hlt
  refine ⟨b.blocks[entry].push (.alloca b.nextRegister ty), ty, ?_, ?_⟩
  · simp [withSlot, getElem?_update, hentry]
  · simp [IR.Block.push]

theorem openAt_enterLoop (hopen : b.IsOpen) {n : Nat} (hn : n < 3) :
    b.enterLoop.OpenAt (b.blocks.length + n) := by
  have hne : b.current ≠ b.blocks.length + n :=
    Nat.ne_of_lt (Nat.lt_of_lt_of_le hopen.lt (Nat.le_add_right _ n))
  have hblock : b.withLoop.OpenAt (b.blocks.length + n) := by
    match n, hn with
    | 0, _ => exact ((openAt_withBlock b _).withBlock _).withBlock _
    | 1, _ => exact (by simpa using openAt_withBlock (b.withBlock "while.cond") "while.body" :
        ((b.withBlock "while.cond").withBlock "while.body").OpenAt _).withBlock _
    | 2, _ => simpa [withLoop] using
        openAt_withBlock ((b.withBlock "while.cond").withBlock "while.body") "while.end"
  exact hblock.fallingFrom hne

theorem Extends.enterLoop (h : b.Extends b') (hopen : b'.IsOpen) : b.Extends b'.enterLoop := by
  have hblocks : b.Extends b'.withLoop := ((h.block _).block _).block _
  refine hblocks.resumeAt ?_ (.inr h.length_le) ?_ (ne_entry hopen.lt (Nat.le_refl _))
  · simpa using Nat.lt_add_right 3 hopen.lt
  · simp

theorem admits_loopTargets (hopen : b.IsOpen)
    (hle : b.enterLoop.blocks.length ≤ b'.blocks.length) : b'.Admits (some b.loopTargets) := by
  rintro _ ⟨⟩
  have hjump : ∀ n : Nat, n < 3 →
      b.blocks.length + n < b'.blocks.length ∧ b.blocks.length + n ≠ entry := fun n hn =>
    ⟨Nat.lt_of_lt_of_le (openAt_enterLoop hopen hn).lt hle,
      Extends.ne_entry hopen.lt (Nat.le_add_right _ n)⟩
  exact ⟨hjump 0 (by decide), hjump 2 (by decide)⟩

theorem Extends.bound (h : b.Extends b') {symbol : SymbolId} {slot : IR.Register}
    (hslot : b'.Reserves slot) : b.Extends (b'.withVariable symbol slot) :=
  h.tail (.bound b' symbol slot hslot)

@[simp] theorem withInitial_slots (b : Builder) (slot : IR.Register) (initial : Option IR.Value) :
    (b.withInitial slot initial).slots = b.slots := by
  cases initial <;> rfl

@[simp] theorem withInitial_nextRegister (b : Builder) (slot : IR.Register)
    (initial : Option IR.Value) :
    (b.withInitial slot initial).nextRegister = b.nextRegister := by
  cases initial <;> rfl

theorem extends_withInitial (hopen : b.IsOpen) (slot : IR.Register) (initial : Option IR.Value) :
    b.Extends (b.withInitial slot initial) := by
  cases initial with
  | none => exact .refl b
  | some _ => exact (Extends.refl b).instruction hopen rfl

theorem Extends.joined (h : b.Extends b') {thenExit elseExit : IR.BlockId}
    (hthen : b.Own thenExit) (helse : b.Own elseExit) (hlt : thenExit < b'.blocks.length)
    (hlt' : elseExit < b'.blocks.length) : b.Extends (b'.joined thenExit elseExit) := by
  unfold Builder.joined
  split
  · exact h
  · have hend : b'.blocks.length ≠ entry := Nat.ne_of_gt (Nat.lt_of_le_of_lt (Nat.zero_le _) hlt)
    have hfirst : b.Extends ((b'.withBlock "if.end").fallingFrom thenExit b'.blocks.length) :=
      (h.block "if.end").fallingFrom hthen (by simpa using Nat.lt_succ_of_lt hlt) (by simp) hend
    have hboth : b.Extends (((b'.withBlock "if.end").fallingFrom thenExit
        b'.blocks.length).fallingFrom elseExit b'.blocks.length) :=
      hfirst.fallingFrom helse (by simpa using Nat.lt_succ_of_lt hlt') (by simp) hend
    exact hboth.move (.inr h.length_le) (by simp)

end Builder

namespace Lower

open Builder (Extends)

/-- The step extends the builder, inside the given loop. -/
def Extending {α : Type} (loop : Option LoopTargets) (x : Lower α) : Prop :=
  ∀ ⦃b : Builder⦄ ⦃a : α⦄ ⦃b' : Builder⦄, b.IsOpen → b.Admits loop → x b = .ok (a, b') →
    b.Extends b'

theorem Advances.extending {α : Type} {x : Lower α} (hx : Advances x)
    (loop : Option LoopTargets) : Extending loop x :=
  fun _ _ _ hopen _ h => (hx hopen h).1

namespace Extending

variable {α β : Type} {loop : Option LoopTargets}

theorem refuse (span : Span) (problem : Problem) :
    Extending loop (Lower.refuse span problem : Lower α) :=
  (Advances.refuse span problem).extending loop

theorem pure (a : α) : Extending loop (Pure.pure a : Lower α) := (Advances.pure a).extending loop

theorem bind {x : Lower α} {f : α → Lower β} (hx : Advances x) (hf : ∀ a, Extending loop (f a)) :
    Extending loop (x >>= f) := by
  intro b c b'' hopen hloop h
  obtain ⟨a, _, hrun, hrest⟩ := bind_eq_ok.mp h
  obtain ⟨hext, hopen'⟩ := hx hopen hrun
  exact hext.trans (hf a hopen' (hloop.mono hext.length_le) hrest)

theorem close {t : IR.Terminator} (ht : t.targets = []) : Extending loop (Lower.close t) := by
  intro b u _ hopen _ h
  obtain ⟨-, rfl⟩ := h
  exact (Extends.refl b).terminator (.inl rfl) hopen (by simp [ht])

theorem loopJump {target : LoopTargets → IR.BlockId} {span : Span}
    (htarget : ∀ t, target t = t.continueTarget ∨ target t = t.breakTarget) :
    Extending loop (Lowering.loopJump loop target span) := by
  cases loop with
  | none => exact refuse _ _
  | some targets =>
    intro b u _ hopen hloop h
    obtain ⟨-, rfl⟩ := h
    refine (Extends.refl b).terminator (.inl rfl) hopen ?_
    intro id hid
    rw [List.mem_singleton.mp hid]
    rcases htarget targets with heq | heq
    · exact heq ▸ (hloop targets rfl).1
    · exact heq ▸ (hloop targets rfl).2

theorem binding (symbols : SymbolTable) (symbol : SymbolId) (value : Option Typed.Expr) :
    Extending loop (Lowering.binding symbols symbol value) := by
  intro b u b' hopen hloop h
  obtain ⟨initial, _, hvalue, rfl⟩ := Lowering.binding_stages h
  obtain ⟨hext, hopen1⟩ := Advances.closed.optionalValue symbols value (hopen.withSlot _) hvalue
  have hreserves := hext.reserves (Builder.reserves_withSlot
    (Nat.lt_of_le_of_lt (Nat.zero_le _) hopen.lt) (symbols.symbolAt symbol).ty.shape)
  have hext1 := (Extends.refl b).slot (symbols.symbolAt symbol).ty.shape |>.trans hext
  have hinitial := Builder.extends_withInitial hopen1 b.nextRegister initial
  exact (hext1.trans hinitial).bound (hinitial.reserves hreserves)

variable {condition : Lower IR.Value}

theorem ifThen {thenBody : Lower Unit} (hcond : Advances condition)
    (hthen : Extending loop thenBody) : Extending loop (Lowering.ifThen condition thenBody) := by
  intro b u b' hopen hloop h
  obtain ⟨value, b1, _, hrun, hrun', rfl⟩ := Lowering.ifThen_stages h
  obtain ⟨hext1, hopen1⟩ := hcond hopen hrun
  have hfork : b.Extends (b1.enterThen "if.end" value) :=
    hext1.fork hopen1 (by simp [IR.Terminator.targets])
  have hext2 := hthen (Builder.isOpen_fork hopen1 _ _) (hloop.mono hfork.length_le) hrun'
  have hle : b.blocks.length ≤ b1.blocks.length + 1 := Nat.le_succ_of_le hext1.length_le
  refine (hfork.trans hext2).resumeAt ?_ (.inr hle) ?_ (Extends.ne_entry hopen.lt hle)
  · exact (hfork.trans hext2).current_lt hopen.lt
  · exact Nat.lt_of_lt_of_le (Builder.openAt_fork hopen1 _ _).lt hext2.length_le

theorem ifThenElse {thenBody elseBody : Lower Unit} (hcond : Advances condition)
    (hthen : Extending loop thenBody) (helse : Extending loop elseBody) :
    Extending loop (Lowering.ifThenElse condition thenBody elseBody) := by
  intro b u b' hopen hloop h
  obtain ⟨value, b1, b2, b3, hrun, hrun', hrun'', rfl⟩ := Lowering.ifThenElse_stages h
  obtain ⟨hext1, hopen1⟩ := hcond hopen hrun
  have hfork : b.Extends (b1.enterThen "if.else" value) :=
    hext1.fork hopen1 (by simp [IR.Terminator.targets])
  have hext2 := hthen (Builder.isOpen_fork hopen1 _ _) (hloop.mono hfork.length_le) hrun'
  have hle : b.blocks.length ≤ b1.blocks.length + 1 := Nat.le_succ_of_le hext1.length_le
  -- The block of the `else` branch is not touched by the `then` branch.
  have helse2 : b2.OpenAt (b1.blocks.length + 1) :=
    hext2.openAt (Builder.openAt_fork hopen1 _ _) (Nat.succ_ne_self _)
  have hmoved : b.Extends (b2.movedTo (b1.blocks.length + 1)) :=
    (hfork.trans hext2).move (.inr hle) helse2.lt
  have hext3 := helse (b := b2.movedTo (b1.blocks.length + 1)) helse2
    (hloop.mono hmoved.length_le) hrun''
  have hlt : b2.current < b3.blocks.length :=
    Nat.lt_of_lt_of_le ((hfork.trans hext2).current_lt hopen.lt) hext3.length_le
  exact (hmoved.trans hext3).joined (hfork.trans hext2).owns_current
    (hmoved.trans hext3).owns_current hlt ((hmoved.trans hext3).current_lt hopen.lt)

theorem whileLoop {body : LoopTargets → Lower Unit} (hcond : Advances condition)
    (hbody : ∀ targets, Extending (some targets) (body targets)) :
    Extending loop (Lowering.loop condition body) := by
  intro b u b' hopen hloop h
  obtain ⟨value, b1, b2, hrun, hrun', rfl⟩ := Lowering.loop_stages h
  have hentry : ∀ n, b.blocks.length + n ≠ Builder.entry := fun n =>
    Extends.ne_entry hopen.lt (Nat.le_add_right _ n)
  have hext := (Extends.refl b).enterLoop hopen
  obtain ⟨hext1, hopen1⟩ := hcond (Builder.openAt_enterLoop hopen (n := 0) (by decide)) hrun
  -- The blocks of the body and of the end are not touched by the condition.
  have hbody1 : b1.OpenAt (b.blocks.length + 1) :=
    hext1.openAt (Builder.openAt_enterLoop hopen (by decide)) (Nat.succ_ne_self _)
  have hne1 : b1.current ≠ b.blocks.length + 1 :=
    hext1.current_ne (Builder.openAt_enterLoop hopen (by decide)).lt (Nat.succ_ne_self _).symm
  have hlt1 : ∀ n, n < 3 → b.blocks.length + n < b1.blocks.length := fun n hn =>
    Nat.lt_of_lt_of_le (Builder.openAt_enterLoop hopen hn).lt hext1.length_le
  have hext2 : b.Extends (b1.enterBody b.blocks.length value) := by
    refine ((hext.trans hext1).terminator (hext.trans hext1).owns_current hopen1 ?_).move
      (.inr (Nat.le_succ _)) (by simpa using hbody1.lt)
    simpa [IR.Terminator.targets, hentry] using ⟨hlt1 1 (by decide), hlt1 2 (by decide)⟩
  have hadmits : (b1.enterBody b.blocks.length value).Admits (some b.loopTargets) :=
    Builder.admits_loopTargets hopen (by simpa [Builder.enterBody] using hext1.length_le)
  have hopen2 : (b1.enterBody b.blocks.length value).IsOpen := hbody1.withTerminator hne1 _
  have hext3 := hbody b.loopTargets hopen2 hadmits hrun'
  have hlast : b.Extends b2 := hext2.trans hext3
  have hlt2 : ∀ n, n < 3 → b.blocks.length + n < b2.blocks.length := fun n hn =>
    Nat.lt_of_lt_of_le (by simpa [Builder.enterBody] using hlt1 n hn) hext3.length_le
  exact (hlast.fallingFrom hlast.owns_current (hlast.current_lt hopen.lt) (hlt2 0 (by decide))
    (hentry 0)).move (.inr (Nat.le_add_right _ 2)) (by simpa using hlt2 2 (by decide))

end Extending

end Lower

namespace Typed.Stmt

open Lower (Advances Extending)

theorem extends_of_lowerBlock {symbols : SymbolTable} {loop : Option LoopTargets}
    {stmts : List Stmt} {b b' : Builder} (h : Extending loop (lowerBlock symbols loop stmts))
    (hlt : b.current < b.blocks.length) (hloop : b.Admits loop)
    (hrun : lowerBlock symbols loop stmts b = .ok ((), b')) : b.Extends b' := by
  cases hclosed : b.isClosed b.current with
  | true =>
    rw [lowerBlock_of_closed hclosed, Except.ok.injEq, Prod.mk.injEq] at hrun
    exact hrun.2 ▸ .refl b
  | false => exact h (Builder.openAt_of_not_closed hlt hclosed) hloop hrun

mutual

/-- Lowering a statement extends the builder. -/
theorem extending_lower (symbols : SymbolTable) (loop : Option LoopTargets) :
    (s : Stmt) → Extending loop (s.lower symbols loop)
  | .block stmts _ => extending_lowerBlock symbols loop stmts
  | .binding symbol value _ => .binding symbols symbol value
  | .expression value => .bind (Advances.closed.lowerValue symbols value) fun _ => .pure _
  | .ret value _ => by
    refine .bind (Advances.closed.optionalValue symbols value) fun v => .close ?_
    cases v <;> rfl
  | .assign target value _ =>
    .bind (Advances.closed.lowerAddress symbols target) fun _ =>
      .bind (Advances.closed.lowerValue symbols value) fun _ => (Advances.emit rfl).extending loop
  | .conditional condition thenBody none _ =>
    .ifThen (Advances.closed.lowerValue symbols condition) (extending_lower symbols loop thenBody)
  | .conditional condition thenBody (some elseBody) _ =>
    .ifThenElse (Advances.closed.lowerValue symbols condition)
      (extending_lower symbols loop thenBody) (extending_lower symbols loop elseBody)
  | .whileLoop condition body none _ =>
    .whileLoop (Advances.closed.lowerValue symbols condition) fun targets =>
      extending_lower symbols (some targets) body
  | .whileLoop _ _ (some _) _ => .refuse _ _
  | .breakLoop _ => .loopJump fun _ => Or.inr rfl
  | .continueLoop _ => .loopJump fun _ => Or.inl rfl
  | .yield _ _ => .refuse _ _
  | .deadCode _ _ => .pure _

theorem extending_lowerBlock (symbols : SymbolTable) (loop : Option LoopTargets) :
    (stmts : List Stmt) → Extending loop (lowerBlock symbols loop stmts)
  | [] => .pure _
  | stmt :: rest => by
    intro b u b' hopen hloop h
    obtain ⟨_, hstmt, hrest⟩ := lowerBlock_cons_stages hopen h
    have hext := extending_lower symbols loop stmt hopen hloop hstmt
    exact hext.trans (extends_of_lowerBlock (extending_lowerBlock symbols loop rest)
      (hext.current_lt hopen.lt) (hloop.mono hext.length_le) hrest)

end

end Typed.Stmt

/-! ### Functions -/

namespace Builder

theorem isOpen_start : start.IsOpen := ⟨.empty entry "entry", rfl, rfl⟩

variable {b : Builder}

theorem Extends.entry_lt (h : start.Extends b) : entry < b.blocks.length :=
  Nat.lt_of_lt_of_le (by decide : entry < start.blocks.length) h.length_le

/-- The builder after a parameter got its slot and its argument. -/
def withParam (b : Builder) (symbol : SymbolId) (ty : IR.Ty) (place : Nat) : Builder :=
  ((b.withSlot ty).withInstruction (.store (.register b.nextRegister) (.param place))).withVariable
    symbol b.nextRegister

theorem isOpen_withParam (hopen : b.IsOpen) (symbol : SymbolId) (ty : IR.Ty) (place : Nat) :
    (b.withParam symbol ty place).IsOpen :=
  (hopen.withSlot ty).withInstruction _

theorem extends_withParam (hopen : b.IsOpen) (symbol : SymbolId) (ty : IR.Ty) (place : Nat) :
    b.Extends (b.withParam symbol ty place) := by
  have hstore : (b.withSlot ty).Extends
      ((b.withSlot ty).withInstruction (.store (.register b.nextRegister) (.param place))) :=
    (Extends.refl _).instruction (hopen.withSlot ty) rfl
  have hreserves := reserves_withSlot (Nat.lt_of_le_of_lt (Nat.zero_le _) hopen.lt) ty
  exact (((Extends.refl b).slot ty).trans hstore).bound (hstore.reserves hreserves)

end Builder

namespace Lowering

open Lower

variable {symbols : SymbolTable} {b b' : Builder}

theorem params_nil_stages {next : Nat} (h : params symbols next [] b = .ok ((), b')) : b' = b := by
  rw [params, pure_eq_ok, Prod.mk.injEq] at h
  exact h.2.symm

/-- The first parameter gets its slot before the others. -/
theorem params_cons_stages {next : Nat} {symbol : SymbolId} {rest : List SymbolId}
    (h : params symbols next (symbol :: rest) b = .ok ((), b')) :
    params symbols (next + 1) rest
      (b.withParam symbol (symbols.symbolAt symbol).ty.shape next) = .ok ((), b') := by
  simpa only [Builder.withParam, params, bind_eq_ok, reserve_run, storeSlot_run, bindSlot_run,
    Except.ok.injEq, Prod.mk.injEq, ↓existsAndEq, true_and, exists_const] using h

theorem advances_params (symbols : SymbolTable) (ids : List SymbolId) (next : Nat) :
    Advances (params symbols next ids) := by
  induction ids generalizing next with
  | nil =>
    intro b u b' hopen h
    rw [params_nil_stages h]
    exact ⟨.refl b, hopen⟩
  | cons symbol _ ih =>
    intro b u b' hopen h
    obtain ⟨hext, hopen'⟩ := ih (next + 1) (Builder.isOpen_withParam hopen symbol _ next)
      (params_cons_stages h)
    exact ⟨(Builder.extends_withParam hopen symbol _ next).trans hext, hopen'⟩

theorem extending_body (symbols : SymbolTable) (returnsVoid : Bool) (body : Typed.Body) :
    Extending none (Lowering.body symbols returnsVoid body) := by
  cases body with
  | empty => exact .pure _
  | block stmts _ => exact Typed.Stmt.extending_lowerBlock symbols none stmts
  | expression value =>
    refine .bind (Advances.closed.lowerValue symbols value) fun v => .close ?_
    cases returnsVoid <;> rfl

/-- Lowering a function extends the builder it starts with. -/
theorem extends_code {returnsVoid : Bool} {f : Typed.Function}
    (h : code symbols returnsVoid f .start = .ok ((), b)) : Builder.start.Extends b := by
  have hcode : Extending none (code symbols returnsVoid f) :=
    .bind (advances_params symbols f.params 0) fun _ => extending_body symbols returnsVoid f.body
  exact hcode Builder.isOpen_start (Builder.admits_none _) h

end Lowering

end Laye
