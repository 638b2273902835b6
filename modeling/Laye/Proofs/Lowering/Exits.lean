import Laye.Proofs.Lowering.Routes
import Laye.Proofs.Lowering.SingleAssignment

/-!
# Where statements leave the current block

A statement closes the current block exactly if control never flows past it, leaves no other block
open that it added or started in (`Builder.Settles`), and adds code to the current block and to new
ones only (`Builder.Spares`). This holds in any loop, also in one whose blocks are not there
(`Typed.Stmt.finishes_lower`): only a jump out of the loop reads where these are, and it closes the
current block wherever it goes.

So when the code of a function is done, only the current block can be open, and it is closed exactly
if the body always exits (`Lowering.isClosed_code`). This is what decides whether a function that
gives a value can be completed (`Lowering.complete_code`).
-/

namespace Laye

open IR

namespace Builder

variable {b b' b'' : Builder}

/-! ### Blocks that wait for code -/

/-- The block is open, but no code is added to it now. -/
def Pending (b : Builder) (id : BlockId) : Prop := b.OpenAt id ∧ id ≠ b.current

/-- What is pending in `b'` was pending before. -/
def Settles (b b' : Builder) : Prop := ∀ id, b'.Pending id → b.Pending id

theorem Settles.refl (b : Builder) : b.Settles b := fun _ h => h

theorem Settles.trans (h : b.Settles b') (h' : b'.Settles b'') : b.Settles b'' :=
  fun id hid => h id (h' id hid)

variable {id closed target thenExit elseExit first : BlockId}

theorem openAt_of_push {other : BlockId} {i : Instruction}
    (h : (b.update id (·.push i)).OpenAt other) : b.OpenAt other := by
  obtain ⟨block, hblock, hopen⟩ := h
  rw [getElem?_update] at hblock
  split at hblock
  · obtain ⟨old, hold, rfl⟩ := Option.map_eq_some_iff.mp hblock
    exact ⟨old, hold, hopen⟩
  · exact ⟨block, hblock, hopen⟩

theorem settles_withDefinition (b : Builder) (i : Register → Instruction) :
    b.Settles (b.withDefinition i) := by
  intro id hid
  have hopen : Builder.OpenAt { b with nextRegister := b.nextRegister + 1 } id :=
    openAt_of_push hid.1
  exact ⟨hopen, hid.2⟩

theorem settles_withInstruction (b : Builder) (i : Instruction) : b.Settles (b.withInstruction i) :=
  fun _ hid => ⟨openAt_of_push hid.1, hid.2⟩

theorem settles_withSlot (b : Builder) (ty : IR.Ty) : b.Settles (b.withSlot ty) := by
  intro id hid
  have hopen : Builder.OpenAt { b with nextRegister := b.nextRegister + 1 } id :=
    openAt_of_push hid.1
  exact ⟨hopen, hid.2⟩

theorem openAt_of_withBlock {label : String} (h : (b.withBlock label).OpenAt id) :
    b.OpenAt id ∨ id = b.blocks.length := by
  by_cases hlt : id < b.blocks.length
  · obtain ⟨block, hblock, hopen⟩ := h
    rw [getElem?_withBlock_of_lt hlt] at hblock
    exact .inl ⟨block, hblock, hopen⟩
  · have hid := h.lt
    rw [withBlock_length] at hid
    exact .inr (Nat.le_antisymm (Nat.le_of_lt_succ hid) (Nat.le_of_not_lt hlt))

theorem openAt_of_withTerminator {t : Terminator} (h : (b.withTerminator closed t).OpenAt id) :
    b.OpenAt id ∧ id ≠ closed := by
  have hne : id ≠ closed := by
    rintro rfl
    exact not_openAt_withTerminator b id t h
  obtain ⟨block, hblock, hopen⟩ := h
  rw [getElem?_withTerminator_of_ne hne.symm] at hblock
  exact ⟨⟨block, hblock, hopen⟩, hne⟩

theorem openAt_of_fallingFrom (h : (b.fallingFrom closed target).OpenAt id) :
    b.OpenAt id ∧ id ≠ closed := by
  unfold Builder.fallingFrom at h
  split at h
  · rename_i hclosed
    refine ⟨h, ?_⟩
    rintro rfl
    rw [h.isClosed] at hclosed
    cases hclosed
  · exact openAt_of_withTerminator h

theorem pending_of_fork {labels : String × String} {t : Terminator}
    (h : (b.fork labels t).Pending id) : id = b.blocks.length + 1 ∨ b.Pending id := by
  obtain ⟨hopen, hcurrent⟩ := h
  obtain ⟨hopen, hne⟩ := openAt_of_withTerminator
    (b := (b.withBlock labels.1).withBlock labels.2) hopen
  rcases openAt_of_withBlock hopen with hopen | hid
  · rcases openAt_of_withBlock hopen with hopen | hid
    · exact .inr ⟨hopen, hne⟩
    · exact absurd hid hcurrent
  · rw [withBlock_length] at hid
    exact .inl hid

theorem pending_of_resumeAt (h : (b.resumeAt target).Pending id) : b.Pending id ∧ id ≠ target :=
  ⟨openAt_of_fallingFrom (b := b) h.1, h.2⟩

theorem pending_of_movedTo (h : (b.movedTo target).Pending id) : b.OpenAt id ∧ id ≠ target := h

theorem settles_withVariable (b : Builder) (symbol : SymbolId) (slot : Register) :
    b.Settles (b.withVariable symbol slot) := fun _ hid => hid

theorem settles_withInitial (b : Builder) (slot : Register) (initial : Option IR.Value) :
    b.Settles (b.withInitial slot initial) := by
  cases initial with
  | none => exact .refl b
  | some _ => exact settles_withInstruction b _

theorem pending_of_joined (h : (b.joined thenExit elseExit).Pending id)
    (hcurrent : elseExit = b.current) : b.Pending id ∧ id ≠ thenExit := by
  obtain ⟨hopen, hne⟩ := h
  unfold joined at hopen hne
  split at hopen
  · rename_i hclosed
    rw [if_pos hclosed] at hne
    refine ⟨⟨hopen, hne⟩, ?_⟩
    rintro rfl
    simp [hopen.isClosed] at hclosed
  · rename_i hclosed
    rw [if_neg hclosed] at hne
    obtain ⟨hopen, helse⟩ := openAt_of_fallingFrom
      (b := (b.withBlock "if.end").fallingFrom thenExit b.blocks.length) hopen
    obtain ⟨hopen, hthen⟩ := openAt_of_fallingFrom hopen
    rcases openAt_of_withBlock hopen with hopen | hid
    · exact ⟨⟨hopen, hcurrent ▸ helse⟩, hthen⟩
    · exact absurd hid hne

/-- At the condition of a loop only its body and its end are pending, besides what was before. -/
theorem pending_of_enterLoop (h : b.enterLoop.Pending id) :
    id = b.blocks.length + 1 ∨ id = b.blocks.length + 2 ∨ b.Pending id := by
  obtain ⟨⟨hopen, hne⟩, hcurrent⟩ := pending_of_resumeAt h
  rcases openAt_of_withBlock hopen with hopen | hid
  · rcases openAt_of_withBlock hopen with hopen | hid
    · rcases openAt_of_withBlock hopen with hopen | hid
      · exact .inr (.inr ⟨hopen, hne⟩)
      · exact absurd hid hcurrent
    · rw [withBlock_length] at hid
      exact .inl hid
  · rw [withBlock_length, withBlock_length] at hid
    exact .inr (.inl hid)

theorem pending_of_enterBody {condition : IR.Value} (h : (b.enterBody first condition).Pending id) :
    b.Pending id ∧ id ≠ first + 1 :=
  ⟨openAt_of_withTerminator (b := b) h.1, h.2⟩

theorem pending_of_leaveLoop (h : (b.leaveLoop first).Pending id) : b.Pending id ∧ id ≠ first + 2 :=
  ⟨openAt_of_fallingFrom (b := b) h.1, h.2⟩

theorem isClosed_joined (hthen : thenExit < b.blocks.length)
    (hcurrent : b.current < b.blocks.length) :
    (b.joined thenExit b.current).isClosed (b.joined thenExit b.current).current =
      (b.isClosed thenExit && b.isClosed b.current) := by
  by_cases hclosed : (b.isClosed thenExit && b.isClosed b.current) = true
  · rw [joined, if_pos hclosed, hclosed]
    exact (Bool.and_eq_true_iff.mp hclosed).2
  · have hopen : b.OpenAt thenExit ∨ b.OpenAt b.current := by
      rw [Bool.and_eq_true, not_and_or, Bool.not_eq_true, Bool.not_eq_true] at hclosed
      exact hclosed.imp (openAt_of_not_closed hthen) (openAt_of_not_closed hcurrent)
    rw [(emptyAt_joined hopen hthen hcurrent).openAt.isClosed]
    simpa using hclosed

/-! ### Blocks that stay as they are -/

/-- Code was added to the current block and to new blocks. The other blocks are as they were, but
for stack slots in the entry. -/
structure Spares (b b' : Builder) : Prop where
  length_le : b.blocks.length ≤ b'.blocks.length
  owns_current : b.Own b'.current
  current_lt : b'.current < b'.blocks.length
  others : ∀ ⦃id : BlockId⦄ ⦃block : Block⦄, b.blocks[id]? = some block → id ≠ b.current →
    ∃ slots, b'.blocks[id]? = some { block with instructions := block.instructions ++ slots } ∧
      (∀ i ∈ slots, i.isAlloca = true) ∧ (id ≠ entry → slots = [])

theorem Extends.spares (h : b.Extends b') (hlt : b.current < b.blocks.length) : b.Spares b' := by
  refine ⟨h.length_le, h.owns_current, h.current_lt hlt, fun id block hblock hne => ?_⟩
  by_cases hentry : id = entry
  · obtain ⟨block', _, hgrows⟩ := h.grows hblock
    obtain ⟨slots, _, -, hslots⟩ := hgrows.code
    refine ⟨slots, ?_, hslots (.inr hne), fun hother => absurd hentry hother⟩
    have hid := hgrows.id_eq
    have hlabel := hgrows.label_eq
    have hend := hgrows.terminator (.inr hne)
    cases block'
    simp_all
  · refine ⟨[], ?_, by simp, fun _ => rfl⟩
    rw [h.untouched (List.getElem?_eq_some_iff.mp hblock).1 hne hentry, hblock, List.append_nil]

namespace Spares

theorem not_own (hlt : id < b.blocks.length) (hne : id ≠ b.current) : ¬ b.Own id :=
  fun hown => hown.elim hne (Nat.not_le_of_lt hlt)

section

variable (h : b.Spares b')
include h

theorem current_ne (hlt : id < b.blocks.length) (hne : id ≠ b.current) : b'.current ≠ id :=
  fun heq => not_own hlt hne (heq ▸ h.owns_current)

theorem own_mono (hid : b'.Own id) : b.Own id := by
  rcases hid with rfl | hid
  · exact h.owns_current
  · exact .inr (Nat.le_trans h.length_le hid)

theorem trans (h' : b'.Spares b'') : b.Spares b'' := by
  refine ⟨Nat.le_trans h.length_le h'.length_le, h.own_mono h'.owns_current, h'.current_lt, ?_⟩
  intro id block hblock hne
  obtain ⟨slots, hblock', hslots, hnone⟩ := h.others hblock hne
  have hlt : id < b.blocks.length := (List.getElem?_eq_some_iff.mp hblock).1
  obtain ⟨slots', hblock'', hslots', hnone'⟩ := h'.others hblock' (h.current_ne hlt hne).symm
  refine ⟨slots ++ slots', by rw [hblock'', List.append_assoc], ?_, fun hentry => ?_⟩
  · exact List.forall_mem_append.mpr ⟨hslots, hslots'⟩
  · rw [hnone hentry, hnone' hentry, List.append_nil]

/-- Changes to blocks of the code, and to new ones, leave the others alone. -/
theorem of_others (hle : b'.blocks.length ≤ b''.blocks.length)
    (hown : b.Own b''.current) (hlt : b''.current < b''.blocks.length)
    (hothers : ∀ id < b'.blocks.length, ¬ b.Own id → b''.blocks[id]? = b'.blocks[id]?) :
    b.Spares b'' := by
  refine ⟨Nat.le_trans h.length_le hle, hown, hlt, fun id block hblock hne => ?_⟩
  obtain ⟨slots, hblock', hslots⟩ := h.others hblock hne
  have hid : id < b.blocks.length := (List.getElem?_eq_some_iff.mp hblock).1
  refine ⟨slots, ?_, hslots⟩
  rw [hothers id (List.getElem?_eq_some_iff.mp hblock').1 (not_own hid hne), hblock']

theorem terminator (hown : b.Own id) (t : Terminator) : b.Spares (b'.withTerminator id t) := by
  refine h.of_others (by simp) h.owns_current (by simpa using h.current_lt) fun other _ hother => ?_
  refine getElem?_withTerminator_of_ne ?_ t
  rintro rfl
  exact hother hown

theorem block (label : String) : b.Spares (b'.withBlock label) :=
  h.of_others (by simp) h.owns_current (by simpa using Nat.lt_succ_of_lt h.current_lt)
    fun _ hlt _ => getElem?_withBlock_of_lt hlt label

theorem move (hown : b.Own id) (hlt : id < b'.blocks.length) : b.Spares (b'.movedTo id) :=
  h.of_others (Nat.le_refl _) hown hlt fun _ _ _ => rfl

theorem fallingFrom (hown : b.Own id) (target : BlockId) : b.Spares (b'.fallingFrom id target) := by
  unfold Builder.fallingFrom
  split
  · exact h
  · exact h.terminator hown _

theorem resumeAt (hown : b.Own target) (hlt : target < b'.blocks.length) :
    b.Spares (b'.resumeAt target) :=
  (h.fallingFrom h.owns_current target).move hown (by simpa using hlt)

theorem joined (hthen : b.Own thenExit) (helse : b.Own elseExit) :
    b.Spares (b'.joined thenExit elseExit) := by
  unfold Builder.joined
  split
  · exact h
  · exact (((h.block "if.end").fallingFrom hthen _).fallingFrom helse _).move (.inr h.length_le)
      (by simp)

/-- A block that is not the current one is open or closed as before. -/
theorem isClosed_eq (hlt : id < b.blocks.length) (hne : id ≠ b.current) :
    b'.isClosed id = b.isClosed id := by
  have hblock : b.blocks[id]? = some b.blocks[id] := List.getElem?_eq_getElem hlt
  obtain ⟨_, hblock', -⟩ := h.others hblock hne
  simp [Builder.isClosed, hblock, hblock', Block.isClosed]

theorem openAt (hopen : b.OpenAt id) (hne : id ≠ b.current) : b'.OpenAt id :=
  openAt_of_not_closed (Nat.lt_of_lt_of_le hopen.lt h.length_le)
    ((h.isClosed_eq hopen.lt hne).trans hopen.isClosed)

end

end Spares

end Builder

/-! ### Expressions -/

namespace Lower

/-- The step leaves the current block open, and nothing pending that was not so before. -/
structure Settling {α : Type} (x : Lower α) : Prop where
  advances : Advances x
  settles : ∀ ⦃b : Builder⦄ ⦃a : α⦄ ⦃b' : Builder⦄, b.IsOpen → x b = .ok (a, b') → b.Settles b'

namespace Settling

variable {α β : Type}

theorem pure (a : α) : Settling (Pure.pure a : Lower α) := by
  refine ⟨.pure a, fun b a' b' _ h => ?_⟩
  rw [pure_eq_ok, Prod.mk.injEq] at h
  exact h.2 ▸ .refl b

theorem refuse (span : Span) (problem : Problem) :
    Settling (Lower.refuse span problem : Lower α) :=
  ⟨.refuse span problem, fun _ _ _ _ h => absurd h refuse_ne_ok⟩

theorem bind {x : Lower α} {f : α → Lower β} (hx : Settling x) (hf : ∀ a, Settling (f a)) :
    Settling (x >>= f) := by
  refine ⟨hx.advances.bind fun a => (hf a).advances, fun b c b'' hopen h => ?_⟩
  obtain ⟨a, _, hrun, hrest⟩ := bind_eq_ok.mp h
  exact (hx.settles hopen hrun).trans ((hf a).settles (hx.advances hopen hrun).2 hrest)

theorem define {i : Register → Instruction} (hdest : ∀ r, (i r).dest? = some r)
    (hcode : ∀ r, (i r).isAlloca = false) : Settling (Lower.define i) := by
  refine ⟨.define hdest hcode, fun b v b' _ h => ?_⟩
  rw [define_run, Except.ok.injEq, Prod.mk.injEq] at h
  exact h.2 ▸ Builder.settles_withDefinition b i

theorem emit {i : Instruction} (hdest : i.dest? = none) : Settling (Lower.emit i) := by
  refine ⟨.emit hdest, fun b u b' _ h => ?_⟩
  rw [emit_run, Except.ok.injEq, Prod.mk.injEq] at h
  exact h.2 ▸ Builder.settles_withInstruction b i

theorem reserve (ty : IR.Ty) : Settling (Lower.reserve ty) := by
  refine ⟨.reserve ty, fun b slot b' _ h => ?_⟩
  rw [reserve_run, Except.ok.injEq, Prod.mk.injEq] at h
  exact h.2 ▸ Builder.settles_withSlot b ty

theorem symbol (symbols : SymbolTable) (id : SymbolId) (span : Span) :
    Settling (Lowering.symbol symbols id span) := by
  refine ⟨.symbol symbols id span, fun b op b' _ h => ?_⟩
  rw [(Lowering.symbol_stages h).1]
  exact .refl b

theorem shortCircuit {isAnd : Bool} {left right : Lower IR.Value} (hleft : Settling left)
    (hright : Settling right) : Settling (Lowering.shortCircuit isAnd left right) := by
  refine ⟨.shortCircuit hleft.advances hright.advances, fun b op b' hopen h => ?_⟩
  obtain ⟨_, b1, rhs, b2, _, hrun, hrun', rfl, -, rfl⟩ := Lowering.shortCircuit_stages h
  have hopen1 := (hleft.advances (hopen.withSlot _) hrun).2
  have hroute := Builder.detours hopen1 hright.advances hrun'
  have hset1 := hleft.settles (hopen.withSlot _) hrun
  have hset2 := hright.settles hroute.openRight hrun'
  intro id hid
  -- Back from the end: the second block of the fork is where the code goes on.
  obtain ⟨hid, hne⟩ := Builder.pending_of_resumeAt
    (b := b2.withInstruction (.store (.register b.nextRegister) rhs))
    (Builder.settles_withDefinition _ _ id hid)
  rcases Builder.pending_of_fork (hset2 id (Builder.settles_withInstruction b2 _ id hid)) with
    hid | hid
  · rw [Builder.withInstruction_length] at hid
    exact absurd hid hne
  · exact Builder.settles_withSlot b _ id (hset1 id (Builder.settles_withInstruction b1 _ id hid))

theorem closed : Closed @Settling :=
  .of_steps pure refuse bind define emit reserve symbol shortCircuit

end Settling

/-! ### Statements -/

/-- Inside the given loop, the step leaves nothing pending, and the current block closed or not as
`exits` says. -/
def Ends {α : Type} (loop : Option LoopTargets) (exits : Bool) (x : Lower α) : Prop :=
  ∀ ⦃b : Builder⦄ ⦃a : α⦄ ⦃b' : Builder⦄, b.IsOpen → b.Admits loop → x b = .ok (a, b') →
    b.Settles b' ∧ b'.isClosed b'.current = exits

namespace Ends

variable {α β : Type} {loop : Option LoopTargets} {exits : Bool}

theorem of_settling {x : Lower α} (hx : Settling x) : Ends loop false x := by
  intro b a b' hopen _ h
  exact ⟨hx.settles hopen h, (hx.advances hopen h).2.isClosed⟩

theorem refuse (span : Span) (problem : Problem) :
    Ends loop exits (Lower.refuse span problem : Lower α) :=
  fun _ _ _ _ _ h => absurd h refuse_ne_ok

theorem bind {x : Lower α} {f : α → Lower β} (hx : Settling x) (hf : ∀ a, Ends loop exits (f a)) :
    Ends loop exits (x >>= f) := by
  intro b c b'' hopen hloop h
  obtain ⟨a, _, hrun, hrest⟩ := bind_eq_ok.mp h
  obtain ⟨hext, hopen'⟩ := hx.advances hopen hrun
  obtain ⟨hset, hclosed⟩ := hf a hopen' (hloop.mono hext.length_le) hrest
  exact ⟨(hx.settles hopen hrun).trans hset, hclosed⟩

theorem close (t : Terminator) : Ends loop true (Lower.close t) := by
  intro b u b' hopen _ h
  rw [close_run, Except.ok.injEq, Prod.mk.injEq] at h
  obtain ⟨-, rfl⟩ := h
  refine ⟨fun id hid => ⟨(Builder.openAt_of_withTerminator hid.1).1, hid.2⟩, ?_⟩
  obtain ⟨_, hblock, -⟩ := hopen
  have hclosed := Builder.getElem?_withTerminator_self hblock t
  simp [Builder.isClosed, hclosed, Block.isClosed, Block.close]

theorem binding (symbols : SymbolTable) (symbol : SymbolId) (value : Option Typed.Expr) :
    Ends loop false (Lowering.binding symbols symbol value) := by
  intro b u b' hopen _ h
  obtain ⟨initial, b1, hvalue, rfl⟩ := Lowering.binding_stages h
  have hsettling := Settling.closed.optionalValue symbols value
  have hset := hsettling.settles (hopen.withSlot _) hvalue
  have hopen1 := (hsettling.advances (hopen.withSlot _) hvalue).2
  refine ⟨?_, ?_⟩
  · exact ((Builder.settles_withSlot b _).trans hset).trans
      ((Builder.settles_withInitial b1 _ initial).trans (Builder.settles_withVariable _ _ _))
  · have hopen2 : (b1.withInitial b.nextRegister initial).IsOpen := by
      cases initial with
      | none => exact hopen1
      | some v => exact hopen1.withInstruction _
    exact hopen2.isClosed

variable {condition : Lower IR.Value}

theorem whileLoop {body : LoopTargets → Lower Unit} (hcond : Settling condition)
    (hbodyExt : ∀ targets, Extending (some targets) (body targets))
    (hbody : ∀ targets, Ends (some targets) exits (body targets)) :
    Ends loop false (Lowering.loop condition body) := by
  intro b u b' hopen _ h
  obtain ⟨_, _, _, hrun, hrun', rfl⟩ := Lowering.loop_stages h
  have hroute := Builder.circles hopen hcond.advances hbodyExt hrun hrun'
  have hset1 := hcond.settles hroute.openLoop hrun
  obtain ⟨hset2, -⟩ := hbody b.loopTargets hroute.openBody hroute.admits hrun'
  refine ⟨fun id hid => ?_, hroute.emptyAfter.openAt.isClosed⟩
  obtain ⟨hid, hend⟩ := Builder.pending_of_leaveLoop hid
  obtain ⟨hid, hstart⟩ := Builder.pending_of_enterBody (hset2 id hid)
  rcases Builder.pending_of_enterLoop (hset1 id hid) with hid | hid | hid
  · exact absurd hid hstart
  · exact absurd hid hend
  · exact hid

end Ends

/-- In any loop and from any open block, the step spares the other blocks and leaves nothing
pending. It leaves the current block closed or not as `exits` says. -/
def Finishes (exits : Bool) (x : Lower Unit) : Prop :=
  ∀ ⦃b b' : Builder⦄, b.IsOpen → x b = .ok ((), b') →
    b.Spares b' ∧ b.Settles b' ∧ b'.isClosed b'.current = exits

namespace Finishes

variable {exits exits' : Bool} {condition : Lower IR.Value}
  {x thenBody elseBody : Lower Unit} {b b1 b2 : Builder} {value : IR.Value}

/-- A step that looks at no loop around it may as well stand outside of loops. -/
theorem of_ends (hext : Extending none x) (hends : Ends none exits x) :
    Finishes exits x := by
  intro b b' hopen h
  have hspares := (hext hopen (Builder.admits_none b) h).spares hopen.lt
  exact ⟨hspares, hends hopen (Builder.admits_none b) h⟩

theorem ends (h : Finishes exits x) (loop : Option LoopTargets) : Ends loop exits x :=
  fun _ _ _ hopen _ hrun => (h hopen hrun).2

theorem close (t : Terminator) : Finishes true (Lower.close t) := by
  intro b b' hopen h
  refine ⟨?_, Ends.close t hopen (Builder.admits_none b) h⟩
  rw [close_run, Except.ok.injEq, Prod.mk.injEq] at h
  rw [← h.2]
  exact ((Builder.Extends.refl b).spares hopen.lt).terminator (.inl rfl) t

theorem loopJump (loop : Option LoopTargets) (target : LoopTargets → BlockId) (span : Span) :
    Finishes true (Lowering.loopJump loop target span) := by
  cases loop with
  | none =>
    intro b b' _ h
    cases h
  | some _ => exact close _

/-- The builder after the condition of a conditional, at the first of two new blocks. -/
theorem spares_enterThen (label : String) (hcond : Settling condition) (hopen : b.IsOpen)
    (hrun : condition b = .ok (value, b1)) : b1.IsOpen ∧ b.blocks.length ≤ b1.blocks.length ∧
      b.Spares (b1.enterThen label value) := by
  obtain ⟨hext, hopen1⟩ := hcond.advances hopen hrun
  have hfork : b1.Extends (b1.enterThen label value) :=
    (Builder.Extends.refl b1).fork hopen1 (by simp [Terminator.targets])
  exact ⟨hopen1, hext.length_le, (hext.trans hfork).spares hopen.lt⟩

theorem ifThen (hcond : Settling condition) (hthen : Finishes exits thenBody) :
    Finishes false (Lowering.ifThen condition thenBody) := by
  intro b b' hopen h
  obtain ⟨value, b1, _, hrun, hrun', rfl⟩ := Lowering.ifThen_stages h
  obtain ⟨hopen1, hle, hfork⟩ := spares_enterThen "if.end" hcond hopen hrun
  obtain ⟨hbranch, hset2, -⟩ := hthen (Builder.isOpen_fork hopen1 _ _) hrun'
  have hend := Builder.openAt_fork hopen1 ("if.then", "if.end")
    (.branch value b1.blocks.length (b1.blocks.length + 1))
  have hne := Nat.succ_ne_self b1.blocks.length
  have hend2 := hbranch.openAt hend hne
  refine ⟨?_, fun id hid => ?_, ?_⟩
  · exact (hfork.trans hbranch).resumeAt (.inr (Nat.le_succ_of_le hle)) hend2.lt
  · obtain ⟨hid, hother⟩ := Builder.pending_of_resumeAt hid
    rcases Builder.pending_of_fork (hset2 id hid) with hid | hid
    · exact absurd hid hother
    · exact hcond.settles hopen hrun id hid
  · exact (Builder.isOpen_resumeAt hend2 (hbranch.current_ne hend.lt hne)).isClosed

theorem ifThenElse (hcond : Settling condition) (hthen : Finishes exits thenBody)
    (helse : Finishes exits' elseBody) :
    Finishes (exits && exits') (Lowering.ifThenElse condition thenBody elseBody) := by
  intro b b' hopen h
  obtain ⟨value, b1, b2, b3, hrun, hrun', hrun'', rfl⟩ := Lowering.ifThenElse_stages h
  obtain ⟨hopen1, hle, hfork⟩ := spares_enterThen "if.else" hcond hopen hrun
  obtain ⟨hbranch, hset2, hclosed2⟩ := hthen (Builder.isOpen_fork hopen1 _ _) hrun'
  have hend := Builder.openAt_fork hopen1 ("if.then", "if.else")
    (.branch value b1.blocks.length (b1.blocks.length + 1))
  have hne := Nat.succ_ne_self b1.blocks.length
  have helse2 := hbranch.openAt hend hne
  have hmoved : b.Spares (b2.movedTo (b1.blocks.length + 1)) :=
    (hfork.trans hbranch).move (.inr (Nat.le_succ_of_le hle)) helse2.lt
  obtain ⟨hother, hset3, hclosed3⟩ := helse (b := b2.movedTo (b1.blocks.length + 1)) helse2 hrun''
  have hthenExit : b.Own b2.current := (hfork.trans hbranch).owns_current
  have hlt : b2.current < b3.blocks.length := Nat.lt_of_lt_of_le hbranch.current_lt hother.length_le
  refine ⟨?_, fun id hid => ?_, ?_⟩
  · exact (hmoved.trans hother).joined hthenExit (hmoved.trans hother).owns_current
  · obtain ⟨hid, hthen'⟩ := Builder.pending_of_joined hid rfl
    obtain ⟨hid, helse'⟩ := Builder.pending_of_movedTo (hset3 id hid)
    rcases Builder.pending_of_fork (hset2 id ⟨hid, hthen'⟩) with hid | hid
    · exact absurd hid helse'
    · exact hcond.settles hopen hrun id hid
  · -- The `else` branch leaves the end of the `then` branch as it is.
    have hsame : b3.isClosed b2.current = b2.isClosed b2.current :=
      hother.isClosed_eq hbranch.current_lt (hbranch.current_ne hend.lt hne)
    rw [Builder.isClosed_joined hlt hother.current_lt, hclosed3, hsame, hclosed2]

end Finishes

end Lower

namespace Typed.Stmt

open Lower (Settling Ends Finishes)

theorem finishes_of_loopless {symbols : SymbolTable} {loop : Option LoopTargets} {s : Stmt}
    (h : s.lower symbols loop = s.lower symbols none)
    (hends : Ends none s.alwaysExits (s.lower symbols none)) :
    Finishes s.alwaysExits (s.lower symbols loop) :=
  h ▸ .of_ends (extending_lower symbols none s) hends

mutual

/-- A statement closes the current block exactly if control never flows past it. -/
theorem finishes_lower (symbols : SymbolTable) (loop : Option LoopTargets) :
    (s : Stmt) → Finishes s.alwaysExits (s.lower symbols loop)
  | .block stmts _ => by
    exact finishes_lowerBlock symbols loop stmts
  | .binding symbol value _ => finishes_of_loopless rfl (.binding symbols symbol value)
  | .expression value =>
    finishes_of_loopless rfl
      (.of_settling ((Settling.closed.lowerValue symbols value).bind fun _ => .pure _))
  | .ret value _ =>
    finishes_of_loopless rfl (.bind (Settling.closed.optionalValue symbols value) fun _ => .close _)
  | .assign target value _ =>
    finishes_of_loopless rfl
      (.of_settling ((Settling.closed.lowerAddress symbols target).bind fun _ =>
        (Settling.closed.lowerValue symbols value).bind fun _ => .emit rfl))
  | .conditional condition thenBody none _ =>
    .ifThen (Settling.closed.lowerValue symbols condition) (finishes_lower symbols loop thenBody)
  | .conditional condition thenBody (some elseBody) _ =>
    .ifThenElse (Settling.closed.lowerValue symbols condition)
      (finishes_lower symbols loop thenBody) (finishes_lower symbols loop elseBody)
  | .whileLoop condition body none _ =>
    finishes_of_loopless rfl (.whileLoop (Settling.closed.lowerValue symbols condition)
      (fun targets => extending_lower symbols (some targets) body)
      fun targets => (finishes_lower symbols (some targets) body).ends _)
  | .breakLoop span => .loopJump loop LoopTargets.breakTarget span
  | .continueLoop span => .loopJump loop LoopTargets.continueTarget span
  | .whileLoop _ _ (some _) _ | .yield _ _ => finishes_of_loopless rfl (.refuse _ _)
  | .deadCode _ _ => finishes_of_loopless rfl (.of_settling (.pure _))

theorem finishes_lowerBlock (symbols : SymbolTable) (loop : Option LoopTargets) :
    (stmts : List Stmt) → Finishes (someAlwaysExits stmts) (lowerBlock symbols loop stmts)
  | [] => .of_ends (.pure _) (.of_settling (.pure _))
  | stmt :: rest => by
    intro b b' hopen h
    obtain ⟨_, hstmt, hrest⟩ := lowerBlock_cons_stages hopen h
    obtain ⟨hspares, hset, hclosed⟩ := finishes_lower symbols loop stmt hopen hstmt
    rw [someAlwaysExits]
    cases hexits : stmt.alwaysExits with
    | true =>
      rw [hexits] at hclosed
      rw [lowerBlock_of_closed hclosed, Except.ok.injEq, Prod.mk.injEq] at hrest
      obtain ⟨-, rfl⟩ := hrest
      exact ⟨hspares, hset, by rw [hclosed, Bool.true_or]⟩
    | false =>
      rw [hexits] at hclosed
      obtain ⟨hspares', hset', hclosed'⟩ := finishes_lowerBlock symbols loop rest
        (Builder.openAt_of_not_closed hspares.current_lt hclosed) hrest
      exact ⟨hspares.trans hspares', hset.trans hset', by rw [hclosed', Bool.false_or]⟩

end

theorem ends_lower (symbols : SymbolTable) (loop : Option LoopTargets) (s : Stmt) :
    Ends loop s.alwaysExits (s.lower symbols loop) :=
  (finishes_lower symbols loop s).ends loop

/-- A statement that is lowered from an open block, in whatever loop, leaves the current block
closed exactly if control never flows past it. All other blocks that it made are closed. The blocks
that were there before, other than the current one, are as they were but for stack slots in the
entry. -/
theorem lower_closes_iff_exits {symbols : SymbolTable} {loop : Option LoopTargets} {s : Stmt}
    {b b' : Builder} (hopen : b.IsOpen) (h : s.lower symbols loop b = .ok ((), b')) :
    b'.current < b'.blocks.length ∧
    (b'.isClosed b'.current = true ↔ s.alwaysExits = true) ∧
    (∀ id, b.blocks.length ≤ id → id < b'.blocks.length → id ≠ b'.current → b'.isClosed id = true) ∧
    ∀ id block, b.blocks[id]? = some block → id ≠ b.current →
      ∃ slots, b'.blocks[id]? = some { block with instructions := block.instructions ++ slots } ∧
        (∀ i ∈ slots, i.isAlloca = true) ∧ (id ≠ Builder.entry → slots = []) := by
  obtain ⟨hspares, hset, hclosed⟩ := finishes_lower symbols loop s hopen h
  refine ⟨hspares.current_lt, by rw [hclosed], fun id hle hlt hne => ?_,
    fun id block hblock hne => hspares.others hblock hne⟩
  -- A new block that is open and not current would be pending, and so have been there before.
  by_contra hid
  have hpending := hset id ⟨Builder.openAt_of_not_closed hlt (by simpa using hid), hne⟩
  exact Nat.not_lt_of_le hle hpending.1.lt

/-- A branch that leaves a loop, and one that does not. -/
def leaveOrStay : Stmt :=
  .conditional (.bool .bool .nowhere true) (.breakLoop .nowhere) (some (.block [] .nowhere))
    .nowhere

theorem leaveOrStay_closes_iff_exits : Builder.start.IsOpen ∧
    ∃ b', leaveOrStay.lower [] (some ⟨7, 9⟩) .start = .ok ((), b') ∧
      (b'.isClosed b'.current = true ↔ leaveOrStay.alwaysExits = true) := by
  obtain ⟨b', hrun⟩ : ∃ b', leaveOrStay.lower [] (some ⟨7, 9⟩) .start = .ok ((), b') := ⟨_, rfl⟩
  exact ⟨Builder.isOpen_start, b', hrun, (lower_closes_iff_exits Builder.isOpen_start hrun).2.1⟩

end Typed.Stmt

/-! ### Functions -/

/-- Whether control never gets to the end of a body without leaving it. -/
def Typed.Body.alwaysExits : Typed.Body → Bool
  | .empty => false
  | .block stmts _ => Typed.Stmt.someAlwaysExits stmts
  | .expression _ => true

namespace Lowering

open Lower

theorem settling_params (symbols : SymbolTable) (ids : List SymbolId) (next : Nat) :
    Settling (params symbols next ids) := by
  refine ⟨advances_params symbols ids next, ?_⟩
  induction ids generalizing next with
  | nil =>
    intro b u b' _ h
    rw [params_nil_stages h]
    exact .refl b
  | cons symbol _ ih =>
    intro b u b' hopen h
    have hparam : b.Settles (b.withParam symbol (symbols.symbolAt symbol).ty.shape next) :=
      ((Builder.settles_withSlot b _).trans (Builder.settles_withInstruction _ _)).trans
        (Builder.settles_withVariable _ _ _)
    exact hparam.trans (ih (next + 1) (Builder.isOpen_withParam hopen symbol _ next)
      (params_cons_stages h))

theorem ends_body (symbols : SymbolTable) (returnsVoid : Bool) (body : Typed.Body) :
    Ends none body.alwaysExits (Lowering.body symbols returnsVoid body) := by
  cases body with
  | empty => exact .of_settling (.pure _)
  | block stmts _ => exact (Typed.Stmt.finishes_lowerBlock symbols none stmts).ends none
  | expression value => exact .bind (Settling.closed.lowerValue symbols value) fun _ => .close _

variable {symbols : SymbolTable} {returnsVoid : Bool} {f : Typed.Function}

/-- When the code of a function is done, all its blocks are closed exactly if its body always
exits. -/
theorem isClosed_code {b : Builder} (h : code symbols returnsVoid f .start = .ok ((), b)) :
    b.blocks.all Block.isClosed = f.body.alwaysExits := by
  have hends : Ends none f.body.alwaysExits (code symbols returnsVoid f) :=
    .bind (settling_params symbols f.params 0) fun _ => ends_body symbols returnsVoid f.body
  obtain ⟨hset, hclosed⟩ := hends Builder.isOpen_start (Builder.admits_none _) h
  have hcurrent : b.current < b.blocks.length :=
    (extends_code h).current_lt Builder.isOpen_start.lt
  -- At the start nothing is pending.
  have honly : ∀ id, b.OpenAt id → id = b.current := by
    intro id hopen
    by_contra hne
    obtain ⟨hopen', hne'⟩ := hset id ⟨hopen, hne⟩
    exact hne' (Nat.lt_one_iff.mp hopen'.lt)
  rw [← hclosed]
  cases hend : b.isClosed b.current with
  | true =>
    refine List.all_eq_true.mpr fun block hmem => ?_
    obtain ⟨id, hblock⟩ := List.getElem?_of_mem hmem
    cases hblockClosed : block.isClosed with
    | true => rfl
    | false =>
      have hopen : b.OpenAt id := ⟨block, hblock, by simpa [Block.isClosed] using hblockClosed⟩
      rw [← honly id hopen, hopen.isClosed] at hend
      cases hend
  | false =>
    obtain ⟨block, hblock, hopen⟩ := Builder.openAt_of_not_closed hcurrent hend
    refine List.all_eq_false.mpr ⟨block, List.mem_of_getElem? hblock, ?_⟩
    simp [Block.isClosed, hopen]

/-- The code of a function can be completed if the function gives no value or its body always
exits. Otherwise a return is missing. -/
theorem complete_code {b : Builder} (h : code symbols returnsVoid f .start = .ok ((), b)) :
    complete returnsVoid f b.blocks =
      if returnsVoid || f.body.alwaysExits then .ok (b.blocks.map closeOpen)
      else .error ⟨f.nameSpan, .missingReturn f.name⟩ := by
  have hall := isClosed_code h
  cases returnsVoid with
  | true => rfl
  | false =>
    cases hexits : f.body.alwaysExits with
    | true =>
      rw [hexits] at hall
      have hok : complete false f b.blocks = .ok b.blocks := by simp [complete, hall]
      rw [hok, ← complete_eq_ok hok]
      rfl
    | false =>
      rw [hexits] at hall
      simp [complete, hall]

end Lowering

end Laye
