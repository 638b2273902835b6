import Laye.Proofs.Lowering.Extension

/-!
# The blocks at the stages of lowering

What becomes of single blocks when a control structure is lowered: how the block before it ends
(`Builder.Closes`), and that the blocks it goes on to are still empty when their code begins.
-/

namespace Laye

open IR

variable {b b' : Builder}

/-- A slot is reserved by an older instruction or by the one that was added. -/
theorem Builder.reserves_of_push {id : BlockId} {i : Instruction} {slot : Register}
    (h : (b.update id (·.push i)).Reserves slot) :
    b.Reserves slot ∨ ∃ ty, i = .alloca slot ty := by
  obtain ⟨block, ty, hblock, hmem⟩ := h
  rw [Builder.getElem?_update] at hblock
  split at hblock
  · obtain ⟨old, hold, rfl⟩ := Option.map_eq_some_iff.mp hblock
    rcases List.mem_append.mp hmem with hmem | hmem
    · exact .inl ⟨old, ty, hold, hmem⟩
    · exact .inr ⟨ty, (List.mem_singleton.mp hmem).symm⟩
  · exact .inl ⟨block, ty, hblock, hmem⟩

/-! ### Changes anywhere -/

namespace Builder

/-- `b'` comes from `b` by changes to any blocks. -/
def Leads (b b' : Builder) : Prop := Relation.ReflTransGen (Edit fun _ => True) b b'

theorem Extends.leads (h : b.Extends b') : b.Leads b' :=
  Relation.ReflTransGen.mono (fun _ _ => Edit.mono fun _ _ => trivial) _ _ h

namespace Leads

variable {b'' : Builder}

theorem trans (h : b.Leads b') (h' : b'.Leads b'') : b.Leads b'' := Relation.ReflTransGen.trans h h'

theorem nextRegister_le (h : b.Leads b') : b.nextRegister ≤ b'.nextRegister := by
  induction h with
  | refl => exact Nat.le_refl _
  | tail _ hlast ih => exact Nat.le_trans ih hlast.nextRegister_le

/-- All that lowering leads to starts from the empty function. -/
theorem started (h : b.Leads b') (hstart : start.Extends b) : start.Extends b' := by
  have hown : ∀ id, start.Own id := fun id =>
    match id with
    | 0 => .inl rfl
    | id + 1 => .inr (Nat.le_add_left 1 id)
  exact Relation.ReflTransGen.trans hstart
    (Relation.ReflTransGen.mono (fun _ _ => Edit.mono fun id _ => hown id) _ _ h)

variable {id target : BlockId}

theorem move (hlt : id < b.blocks.length) : b.Leads (b.movedTo id) :=
  .single (.move b id trivial hlt)

theorem fallingFrom (hlt : id < b.blocks.length) (htarget : target < b.blocks.length)
    (hne : target ≠ entry) : b.Leads (b.fallingFrom id target) := by
  unfold Builder.fallingFrom
  split
  · exact .refl
  · rename_i hclosed
    refine .single
      (.terminator b id _ trivial (openAt_of_not_closed hlt (by simpa using hclosed)) ?_)
    intro t ht
    rw [List.mem_singleton.mp ht]
    exact ⟨htarget, hne⟩

theorem resumeAt (hlt : b.current < b.blocks.length) (htarget : target < b.blocks.length)
    (hne : target ≠ entry) : b.Leads (b.resumeAt target) :=
  (fallingFrom hlt htarget hne).trans (move (by simpa using htarget))

end Leads

/-! ### Blocks after the changes -/

variable {id other : BlockId} {labels : String × String}

theorem getElem?_withBlock_of_lt (hlt : id < b.blocks.length) (label : String) :
    (b.withBlock label).blocks[id]? = b.blocks[id]? :=
  List.getElem?_append_left hlt

theorem getElem?_withTerminator_self {block : Block} (hblock : b.blocks[id]? = some block)
    (t : Terminator) : (b.withTerminator id t).blocks[id]? = some (block.close t) := by
  rw [withTerminator, getElem?_update, if_pos rfl, hblock, Option.map_some]

theorem getElem?_withTerminator_of_ne (hne : id ≠ other) (t : Terminator) :
    (b.withTerminator id t).blocks[other]? = b.blocks[other]? := by
  rw [withTerminator, getElem?_update, if_neg hne]

theorem fallingFrom_of_openAt (hopen : b.OpenAt id) (target : BlockId) :
    b.fallingFrom id target = b.withTerminator id (.jump target) := by
  simp [Builder.fallingFrom, hopen.isClosed]

theorem getElem?_fallingFrom_of_ne (hne : id ≠ other) (target : BlockId) :
    (b.fallingFrom id target).blocks[other]? = b.blocks[other]? := by
  unfold Builder.fallingFrom
  split
  · rfl
  · exact getElem?_withTerminator_of_ne hne _

/-! ### Empty blocks -/

/-- The block of the id is there and nothing was added to it. -/
def EmptyAt (b : Builder) (id : BlockId) : Prop :=
  ∃ label, b.blocks[id]? = some (.empty id label)

theorem emptyAt_withBlock (b : Builder) (label : String) :
    (b.withBlock label).EmptyAt b.blocks.length :=
  ⟨label, by simp [withBlock]⟩

namespace EmptyAt

variable {id : BlockId}

theorem openAt (h : b.EmptyAt id) : b.OpenAt id := by
  obtain ⟨_, hblock⟩ := h
  exact ⟨_, hblock, rfl⟩

theorem withBlock (h : b.EmptyAt id) (label : String) : (b.withBlock label).EmptyAt id := by
  have hlt := h.openAt.lt
  obtain ⟨label', hblock⟩ := h
  exact ⟨label', by rw [getElem?_withBlock_of_lt hlt, hblock]⟩

theorem withTerminator (h : b.EmptyAt id) {closed : BlockId} (hne : closed ≠ id) (t : Terminator) :
    (b.withTerminator closed t).EmptyAt id := by
  obtain ⟨label, hblock⟩ := h
  exact ⟨label, by rw [getElem?_withTerminator_of_ne hne, hblock]⟩

theorem fallingFrom (h : b.EmptyAt id) {closed : BlockId} (hne : closed ≠ id) (target : BlockId) :
    (b.fallingFrom closed target).EmptyAt id := by
  obtain ⟨label, hblock⟩ := h
  exact ⟨label, by rw [getElem?_fallingFrom_of_ne hne, hblock]⟩

/-- Code that starts in another block leaves an empty block empty. -/
theorem of_extends (h : b.EmptyAt id) (hext : b.Extends b') (hcurrent : b.current ≠ id)
    (hne : id ≠ entry) : b'.EmptyAt id := by
  have hlt := h.openAt.lt
  obtain ⟨label, hblock⟩ := h
  exact ⟨label, by rw [hext.untouched hlt hcurrent.symm hne, hblock]⟩

end EmptyAt

/-- The blocks that a fork adds are empty. -/
theorem emptyAt_fork_fst (hlt : b.current < b.blocks.length) (labels : String × String)
    (t : Terminator) : (b.fork labels t).EmptyAt b.blocks.length :=
  ((emptyAt_withBlock b labels.1).withBlock labels.2).withTerminator (Nat.ne_of_lt hlt) t

theorem emptyAt_fork_snd (hlt : b.current < b.blocks.length) (labels : String × String)
    (t : Terminator) : (b.fork labels t).EmptyAt (b.blocks.length + 1) := by
  have hlast := emptyAt_withBlock (b.withBlock labels.1) labels.2
  rw [withBlock_length] at hlast
  exact hlast.withTerminator (Nat.ne_of_lt (Nat.lt_succ_of_lt hlt)) t

/-- While the first branch is lowered, the block of the second stays empty. -/
theorem Extends.emptyAt_fork {t : Terminator} (hext : (b.fork labels t).Extends b')
    (hlt : b.current < b.blocks.length) : b'.EmptyAt (b.blocks.length + 1) :=
  (emptyAt_fork_snd hlt labels t).of_extends hext (Nat.succ_ne_self _).symm (Nat.succ_ne_zero _)

theorem Extends.current_ne_fork {t : Terminator} (hext : (b.fork labels t).Extends b') :
    b'.current ≠ b.blocks.length + 1 :=
  hext.current_ne (by simp) (Nat.succ_ne_self _).symm

/-! ### Short-circuit operators -/

@[simp] theorem enterCircuit_current (b : Builder) (isAnd : Bool) (slot : Register)
    (lhs : IR.Value) : (b.enterCircuit isAnd slot lhs).current = b.blocks.length := by
  simp [enterCircuit]

@[simp] theorem enterCircuit_length (b : Builder) (isAnd : Bool) (slot : Register)
    (lhs : IR.Value) :
    (b.enterCircuit isAnd slot lhs).blocks.length = b.blocks.length + 2 := by
  simp [enterCircuit]

@[simp] theorem leaveCircuit_nextRegister (b : Builder) (slot : Register) (rhs : IR.Value)
    (target : BlockId) : (b.leaveCircuit slot rhs target).nextRegister = b.nextRegister := by
  simp [leaveCircuit]

theorem circuitBranch_eq (b : Builder) (isAnd : Bool) (lhs : IR.Value) :
    b.circuitBranch isAnd lhs = .branch lhs
      (if true = isAnd then b.blocks.length else b.blocks.length + 1)
      (if false = isAnd then b.blocks.length else b.blocks.length + 1) := by
  cases isAnd <;> rfl

theorem emptyAt_enterCircuit (hlt : b.current < b.blocks.length) (isAnd : Bool) (slot : Register)
    (lhs : IR.Value) : (b.enterCircuit isAnd slot lhs).EmptyAt b.blocks.length := by
  have hfork := emptyAt_fork_fst (b := b.withInstruction (.store (.register slot) lhs))
    (by simpa using hlt) (Lowering.circuitLabels isAnd) (b.circuitBranch isAnd lhs)
  rwa [withInstruction_length] at hfork

/-- The code after a short-circuit operator starts in an empty block. -/
theorem emptyAt_leaveCircuit {isAnd : Bool} {slot : Register} {lhs rhs : IR.Value}
    (hopen : b.IsOpen) (hext : (b.enterCircuit isAnd slot lhs).Extends b') (hopen' : b'.IsOpen) :
    (b'.leaveCircuit slot rhs (b.blocks.length + 1)).EmptyAt (b.blocks.length + 1) := by
  have hstored := hext.instruction hopen' (i := .store (.register slot) rhs) rfl
  have hempty := hstored.emptyAt_fork (by simpa using hopen.lt)
  have hne := hstored.current_ne_fork
  rw [withInstruction_length] at hempty hne
  exact hempty.fallingFrom hne _

theorem Leads.leaveCircuit (hopen : b.IsOpen) (slot : Register) (rhs : IR.Value) {target : BlockId}
    (htarget : target < b.blocks.length) (hne : target ≠ entry) :
    b.Leads (b.leaveCircuit slot rhs target) :=
  ((Extends.refl b).instruction hopen rfl).leads.trans
    (.resumeAt (by simpa using hopen.lt) (by simpa using htarget) hne)

/-- The builder after a short-circuit operator, whose result is loaded from the slot. -/
def afterCircuit (b : Builder) (slot : Register) (rhs : IR.Value) (target : BlockId) : Builder :=
  (b.leaveCircuit slot rhs target).withDefinition fun dest => .load dest (.register slot) .bool

theorem Leads.afterCircuit {isAnd : Bool} {slot : Register} {lhs : IR.Value} (hopen : b.IsOpen)
    (hext : (b.enterCircuit isAnd slot lhs).Extends b') (rhs : IR.Value) :
    (b'.leaveCircuit slot rhs (b.blocks.length + 1)).Leads
      (b'.afterCircuit slot rhs (b.blocks.length + 1)) :=
  ((Extends.refl _).definition (isOpen_leaveCircuit hopen hext) (fun _ => rfl) fun _ => rfl).leads

/-! ### Blocks that end -/

/-- In `b'`, the block that `b` is in ends with the terminator, and only slots were added to it
before. -/
structure Closes (b b' : Builder) (t : Terminator) : Prop where
  nextRegister_le : b.nextRegister ≤ b'.nextRegister
  block : ∀ block, b.blocks[b.current]? = some block →
    ∃ block', b'.blocks[b.current]? = some block' ∧ block'.terminator = some t ∧
      ∃ extra, block'.instructions = block.instructions ++ extra ∧
        (∀ r ∈ Instruction.dests extra, b.nextRegister ≤ r) ∧
        ∀ i ∈ extra, i.isAlloca = true

namespace Closes

variable {t : Terminator}

theorem now (hle : b.nextRegister ≤ b'.nextRegister)
    (h : ∀ block, b.blocks[b.current]? = some block →
      b'.blocks[b.current]? = some (block.close t)) : b.Closes b' t :=
  ⟨hle, fun block hblock => ⟨block.close t, h block hblock, rfl, [], by simp [Block.close]⟩⟩

/-- The block is closed after other code was lowered in between. -/
theorem later {mid : Builder} {id : BlockId} (hne : b.current ≠ id)
    (hext : (b.movedTo id).Extends mid) (hle : mid.nextRegister ≤ b'.nextRegister)
    (h : ∀ block, mid.blocks[b.current]? = some block →
      b'.blocks[b.current]? = some (block.close t)) : b.Closes b' t := by
  refine ⟨Nat.le_trans hext.nextRegister_le hle, fun block hblock => ?_⟩
  have hblock' : (b.movedTo id).blocks[b.current]? = some block := hblock
  obtain ⟨grown, hgrown, hgrows⟩ := hext.grows hblock'
  obtain ⟨extra, hcode, hdests, hallocas⟩ := hgrows.code
  exact ⟨grown.close t, h grown hgrown, rfl, extra, hcode, hdests, hallocas (.inr hne)⟩

theorem withTerminator (b : Builder) (t : Terminator) :
    b.Closes (b.withTerminator b.current t) t :=
  now (Nat.le_refl _) fun _ hblock => getElem?_withTerminator_self hblock t

theorem fork (hlt : b.current < b.blocks.length) (labels : String × String) (t : Terminator) :
    b.Closes (b.fork labels t) t := by
  refine now (Nat.le_refl _) fun block hblock => ?_
  refine getElem?_withTerminator_self ?_ t
  rw [getElem?_withBlock_of_lt (by simpa using Nat.lt_succ_of_lt hlt),
    getElem?_withBlock_of_lt hlt, hblock]

theorem fallingFrom (hopen : b.IsOpen) (target : BlockId) :
    b.Closes (b.fallingFrom b.current target) (.jump target) := by
  refine now (by simp) fun block hblock => ?_
  rw [fallingFrom_of_openAt hopen]
  exact getElem?_withTerminator_self hblock _

theorem resumeAt (hopen : b.IsOpen) (target : BlockId) :
    b.Closes (b.resumeAt target) (.jump target) :=
  ⟨(fallingFrom hopen target).nextRegister_le, (fallingFrom hopen target).block⟩

end Closes

/-! ### Conditionals -/

variable {thenExit elseExit : BlockId}

@[simp] theorem joined_nextRegister (b : Builder) (thenExit elseExit : BlockId) :
    (b.joined thenExit elseExit).nextRegister = b.nextRegister := by
  unfold joined
  split <;> simp

@[simp] theorem joined_slots (b : Builder) (thenExit elseExit : BlockId) :
    (b.joined thenExit elseExit).slots = b.slots := by
  unfold joined
  split <;> simp

/-- If a branch can reach its end, both go on to a block of their own. -/
theorem joined_of_openAt (h : b.OpenAt thenExit ∨ b.OpenAt elseExit) :
    b.joined thenExit elseExit = (((b.withBlock "if.end").fallingFrom thenExit
      b.blocks.length).fallingFrom elseExit b.blocks.length).movedTo b.blocks.length := by
  unfold joined
  rcases h with h | h
  · simp [h.isClosed]
  · simp [h.isClosed]

/-- The code after a conditional starts in an empty block. -/
theorem emptyAt_joined (h : b.OpenAt thenExit ∨ b.OpenAt elseExit)
    (hthen : thenExit < b.blocks.length) (helse : elseExit < b.blocks.length) :
    (b.joined thenExit elseExit).EmptyAt (b.joined thenExit elseExit).current := by
  rw [joined_of_openAt h]
  exact ((emptyAt_withBlock b "if.end").fallingFrom (Nat.ne_of_lt hthen) _).fallingFrom
    (Nat.ne_of_lt helse) _

theorem Leads.joined (hthen : thenExit < b.blocks.length) (helse : elseExit < b.blocks.length) :
    b.Leads (b.joined thenExit elseExit) := by
  unfold Builder.joined
  split
  · exact .refl
  · have hne : b.blocks.length ≠ entry := Nat.ne_of_gt (Nat.lt_of_le_of_lt (Nat.zero_le _) hthen)
    have hblock : b.Leads (b.withBlock "if.end") := ((Extends.refl b).block _).leads
    have hfirst : b.Leads ((b.withBlock "if.end").fallingFrom thenExit b.blocks.length) :=
      hblock.trans (.fallingFrom (by simpa using Nat.lt_succ_of_lt hthen) (by simp) hne)
    have hboth : b.Leads (((b.withBlock "if.end").fallingFrom thenExit
        b.blocks.length).fallingFrom elseExit b.blocks.length) :=
      hfirst.trans (.fallingFrom (by simpa using Nat.lt_succ_of_lt helse) (by simp) hne)
    exact hboth.trans (.move (by simp))

/-- The first branch goes on to the block after the conditional. -/
theorem Closes.joined_then {mid : Builder} (hopen : b.IsOpen) (hne : b.current ≠ id)
    (hext : (b.movedTo id).Extends mid) (hother : elseExit ≠ b.current) :
    b.Closes (mid.joined b.current elseExit) (.jump mid.blocks.length) := by
  refine later hne hext (by simp) fun block hblock => ?_
  have hopen' : mid.OpenAt b.current := hext.openAt hopen hne
  rw [joined_of_openAt (.inl hopen'), movedTo_blocks, getElem?_fallingFrom_of_ne hother,
    fallingFrom_of_openAt (hopen'.withBlock _)]
  exact getElem?_withTerminator_self (by rw [getElem?_withBlock_of_lt hopen'.lt, hblock]) _

theorem Closes.joined_else (hopen : b.IsOpen) (hother : thenExit ≠ b.current) :
    b.Closes (b.joined thenExit b.current) (.jump b.blocks.length) := by
  refine now (by simp) fun block hblock => ?_
  rw [joined_of_openAt (.inr hopen), movedTo_blocks,
    fallingFrom_of_openAt ((OpenAt.withBlock hopen _).fallingFrom hother)]
  refine getElem?_withTerminator_self ?_ _
  rw [getElem?_fallingFrom_of_ne hother, getElem?_withBlock_of_lt hopen.lt, hblock]

/-! ### Loops -/

variable {first : BlockId} {condition : IR.Value}

/-- The three blocks of a loop are empty where its condition starts. -/
theorem emptyAt_enterLoop (hopen : b.IsOpen) {n : Nat} (hn : n < 3) :
    b.enterLoop.EmptyAt (b.blocks.length + n) := by
  have hne : b.current ≠ b.blocks.length + n :=
    Nat.ne_of_lt (Nat.lt_of_lt_of_le hopen.lt (Nat.le_add_right _ n))
  have hfirst := emptyAt_withBlock b "while.cond"
  have hsecond := emptyAt_withBlock (b.withBlock "while.cond") "while.body"
  have hthird := emptyAt_withBlock ((b.withBlock "while.cond").withBlock "while.body") "while.end"
  rw [withBlock_length] at hsecond
  rw [withBlock_length, withBlock_length] at hthird
  have hblock : b.withLoop.EmptyAt (b.blocks.length + n) := by
    match n, hn with
    | 0, _ => exact (hfirst.withBlock _).withBlock _
    | 1, _ => exact hsecond.withBlock _
    | 2, _ => exact hthird
  exact hblock.fallingFrom hne _

/-- The code before a loop jumps to its condition. -/
theorem Closes.enterLoop (hopen : b.IsOpen) : b.Closes b.enterLoop (.jump b.blocks.length) := by
  refine now (by simp [Builder.enterLoop, withLoop]) fun block hblock => ?_
  have hblock' : b.withLoop.blocks[b.current]? = some block := by
    have hlt := hopen.lt
    have hlt' : b.current < (b.withBlock "while.cond").blocks.length := by
      rw [withBlock_length]
      exact Nat.lt_add_right 1 hlt
    have hlt'' : b.current < ((b.withBlock "while.cond").withBlock "while.body").blocks.length := by
      rw [withBlock_length, withBlock_length]
      exact Nat.lt_add_right 2 hlt
    rw [withLoop, getElem?_withBlock_of_lt hlt'', getElem?_withBlock_of_lt hlt',
      getElem?_withBlock_of_lt hlt, hblock]
  have hopen' : b.withLoop.OpenAt b.current := ((OpenAt.withBlock hopen _).withBlock _).withBlock _
  rw [Builder.enterLoop, Builder.resumeAt, movedTo_blocks, withLoop_current,
    fallingFrom_of_openAt hopen']
  exact getElem?_withTerminator_self hblock' _

theorem Closes.enterBody : b.Closes (b.enterBody first condition)
    (.branch condition (first + 1) (first + 2)) :=
  now (Nat.le_refl _) fun _ hblock => getElem?_withTerminator_self hblock _

/-- The body of a loop jumps back to the condition. -/
theorem Closes.leaveLoop (hopen : b.IsOpen) : b.Closes (b.leaveLoop first) (.jump first) :=
  ⟨(fallingFrom hopen first).nextRegister_le, (fallingFrom hopen first).block⟩

theorem Leads.enterBody (hopen : b.IsOpen) (hlt : first + 2 < b.blocks.length) :
    b.Leads (b.enterBody first condition) := by
  have hbody : first + 1 < b.blocks.length := Nat.lt_of_succ_lt hlt
  refine Relation.ReflTransGen.trans (.single (.terminator b b.current _ trivial hopen ?_))
    (Leads.move (by simpa using hbody))
  intro target htarget
  rcases List.mem_cons.mp htarget with rfl | htarget
  · exact ⟨hbody, Nat.succ_ne_zero _⟩
  · rw [List.mem_singleton.mp htarget]
    exact ⟨hlt, Nat.succ_ne_zero _⟩

theorem Leads.leaveLoop (hlt : b.current < b.blocks.length) (hfirst : first + 2 < b.blocks.length)
    (hne : first ≠ entry) : b.Leads (b.leaveLoop first) :=
  (Leads.fallingFrom hlt (Nat.lt_of_le_of_lt (Nat.le_add_right _ 2) hfirst) hne).trans
    (.move (by simpa using hfirst))

theorem emptyAt_enterBody (hopen : b.IsOpen) (hext : b.enterLoop.Extends b') {n : Nat} (hn : n < 2)
    (condition : IR.Value) :
    (b'.enterBody b.blocks.length condition).EmptyAt (b.blocks.length + (n + 1)) := by
  have hempty := emptyAt_enterLoop hopen (Nat.succ_lt_succ hn)
  have hne : b.enterLoop.current ≠ b.blocks.length + (n + 1) := by
    exact Nat.ne_of_lt (Nat.lt_add_of_pos_right (Nat.succ_pos n))
  exact (hempty.of_extends hext hne (Nat.succ_ne_zero _)).withTerminator
    (hext.current_ne hempty.openAt.lt hne) _

/-- The code after a loop starts in an empty block. -/
theorem emptyAt_leaveLoop (hempty : (b.enterBody first condition).EmptyAt (first + 2))
    (hext : (b.enterBody first condition).Extends b') :
    (b'.leaveLoop first).EmptyAt (first + 2) := by
  have hne : first + 1 ≠ first + 2 := (Nat.succ_ne_self (first + 1)).symm
  exact (hempty.of_extends hext hne (Nat.succ_ne_zero _)).fallingFrom
    (hext.current_ne hempty.openAt.lt hne) _

@[simp] theorem leaveLoop_slots (b : Builder) (first : BlockId) :
    (b.leaveLoop first).slots = b.slots := by
  simp [Builder.leaveLoop]

@[simp] theorem enterLoop_nextRegister (b : Builder) :
    b.enterLoop.nextRegister = b.nextRegister := by
  simp [Builder.enterLoop, withLoop]

@[simp] theorem enterLoop_slots (b : Builder) : b.enterLoop.slots = b.slots := by
  simp [Builder.enterLoop, withLoop]

end Builder

end Laye
