import Laye.Proofs.Lowering.Routes

/-!
# Every block is reached

Lowering adds a block only if control can get to it. A block need not be linked up at once: the
body and the end of a loop are there before the branch that goes to them. So the statement is about
whole steps. If control gets to the block that a step starts in, then after the step it gets to all
blocks that the step added (`Builder.Connects`). `Lower.Flows.closed` proves this of expressions
and `Typed.Stmt.connecting_lower` of statements. `Lowering.reaches_code` draws the conclusion for a
function, whose first block is the entry.
-/

namespace Laye

open IR

namespace Builder

variable {b b' b'' : Builder}

/-! ### Ways through a builder -/

/-- Control can go from the end of a block to the start of another. -/
def Goes (b : Builder) (id next : BlockId) : Prop :=
  ∃ block, b.blocks[id]? = some block ∧ next ∈ block.successors

/-- Control can get from the entry to a block. -/
def Reaches (b : Builder) (id : BlockId) : Prop := Relation.ReflTransGen b.Goes entry id

variable {t : Terminator}

theorem Leads.terminator (h : b.Leads b') {id : BlockId} {block : Block}
    (hblock : b.blocks[id]? = some block) (ht : block.terminator = some t) :
    ∃ block', b'.blocks[id]? = some block' ∧ block'.terminator = some t := by
  induction h with
  | refl => exact ⟨block, hblock, ht⟩
  | tail _ hlast ih =>
    obtain ⟨_, hmid, hmid'⟩ := ih
    obtain ⟨block', hblock', hgrows⟩ := hlast.grows hmid
    refine ⟨block', hblock', ?_⟩
    rw [hgrows.terminator (.inl (by simp [hmid'])), hmid']

theorem Goes.mono {id next : BlockId} (h : b.Goes id next) (hleads : b.Leads b') :
    b'.Goes id next := by
  obtain ⟨block, hblock, hnext⟩ := h
  cases ht : block.terminator with
  | none => simp [Block.successors, ht] at hnext
  | some t =>
    obtain ⟨block', hblock', ht'⟩ := hleads.terminator hblock ht
    refine ⟨block', hblock', ?_⟩
    simpa [Block.successors, ht, ht'] using hnext

/-- A block that is reached stays so while code is added. -/
theorem Reaches.mono {id : BlockId} (h : b.Reaches id) (hleads : b.Leads b') : b'.Reaches id :=
  Relation.ReflTransGen.mono (fun _ _ hgoes => hgoes.mono hleads) _ _ h

theorem Closes.reaches (h : b.Closes b' t) (hlt : b.current < b.blocks.length)
    (hreach : b'.Reaches b.current) {target : BlockId} (htarget : target ∈ t.targets) :
    b'.Reaches target := by
  obtain ⟨block', hblock', ht, -⟩ := h.block _ (List.getElem?_eq_getElem hlt)
  refine hreach.tail ⟨block', hblock', ?_⟩
  simpa [Block.successors, ht] using htarget

/-! ### New blocks -/

/-- Control gets to every block of `b'` that `b` does not have. -/
def Connects (b b' : Builder) : Prop :=
  ∀ id, b.blocks.length ≤ id → id < b'.blocks.length → b'.Reaches id

theorem connects_of_length_le (h : b'.blocks.length ≤ b.blocks.length) : b.Connects b' :=
  fun _ hge hlt => absurd (Nat.lt_of_lt_of_le hlt h) (Nat.not_lt_of_le hge)

theorem Connects.trans (h : b.Connects b') (h' : b'.Connects b'') (hleads : b'.Leads b'') :
    b.Connects b'' := by
  intro id hge hlt
  by_cases hold : id < b'.blocks.length
  · exact (h id hge hold).mono hleads
  · exact h' id (Nat.le_of_not_lt hold) hlt

/-- Code whose blocks are connected reaches its own end. -/
theorem Extends.reaches_current (hext : b.Extends b') (hlt : b.current < b.blocks.length)
    (hreach : b.Reaches b.current) (hnew : b.Connects b') : b'.Reaches b'.current := by
  rcases hext.owns_current with hsame | hge
  · rw [hsame]
    exact hreach.mono hext.leads
  · exact hnew _ hge (hext.current_lt hlt)

theorem connects_fork (hlt : b.current < b.blocks.length) (hreach : b.Reaches b.current)
    {labels : String × String} (hleads : b.Leads (b.fork labels t))
    (hfst : b.blocks.length ∈ t.targets) (hsnd : b.blocks.length + 1 ∈ t.targets) :
    b.Connects (b.fork labels t) := by
  have hcloses := Closes.fork hlt labels t
  have hcurrent : (b.fork labels t).Reaches b.current := hreach.mono hleads
  intro id hge hid
  rw [fork_length] at hid
  rcases Nat.lt_or_eq_of_le (Nat.le_of_lt_succ hid) with hid | hid
  · have heq : id = b.blocks.length := Nat.le_antisymm (Nat.le_of_lt_succ hid) hge
    exact heq ▸ hcloses.reaches hlt hcurrent hfst
  · exact hid ▸ hcloses.reaches hlt hcurrent hsnd

theorem connects_joined {thenExit : BlockId} (hthen : thenExit < b.blocks.length)
    (hcurrent : b.current < b.blocks.length) (hne : thenExit ≠ b.current)
    (hthenReach : b.Reaches thenExit) (hreach : b.Reaches b.current) :
    b.Connects (b.joined thenExit b.current) := by
  have hleads := Leads.joined hthen hcurrent
  intro id hge hid
  by_cases hclosed : (b.isClosed thenExit && b.isClosed b.current) = true
  · rw [joined, if_pos hclosed] at hid
    exact absurd hid (Nat.not_lt_of_le hge)
  · have hlength : (b.joined thenExit b.current).blocks.length = b.blocks.length + 1 := by
      rw [joined, if_neg hclosed]
      simp
    rw [hlength] at hid
    obtain rfl : id = b.blocks.length := Nat.le_antisymm (Nat.le_of_lt_succ hid) hge
    -- One of the two ends is open, and goes on to the new block.
    cases hend : b.isClosed b.current with
    | false =>
      have hcloses := Closes.joined_else (openAt_of_not_closed hcurrent hend) hne
      exact hcloses.reaches hcurrent (hreach.mono hleads) (by simp [Terminator.targets])
    | true =>
      have hopen : b.OpenAt thenExit := openAt_of_not_closed hthen (by simpa [hend] using hclosed)
      have hback : ((b.movedTo thenExit).movedTo b.current).Extends b := .refl b
      have hcloses : (b.movedTo thenExit).Closes (b.joined thenExit b.current)
          (.jump b.blocks.length) := Closes.joined_then hopen hne hback hne.symm
      exact hcloses.reaches hthen (hthenReach.mono hleads) (by simp [Terminator.targets])

end Builder

/-! ### Expressions -/

namespace Lower

/-- The step leaves the current block open, and control gets to all that it adds. -/
structure Flows {α : Type} (x : Lower α) : Prop where
  advances : Advances x
  connects : ∀ ⦃b : Builder⦄ ⦃a : α⦄ ⦃b' : Builder⦄, b.IsOpen → b.Reaches b.current →
    x b = .ok (a, b') → b.Connects b'

namespace Flows

variable {α β : Type}

theorem of_length {x : Lower α} (hx : Advances x)
    (hlength : ∀ b a b', x b = .ok (a, b') → b'.blocks.length = b.blocks.length) : Flows x :=
  ⟨hx, fun b a b' _ _ h => Builder.connects_of_length_le (Nat.le_of_eq (hlength b a b' h))⟩

theorem pure (a : α) : Flows (Pure.pure a : Lower α) :=
  of_length (.pure a) fun b _ b' h => by
    rw [pure_eq_ok, Prod.mk.injEq] at h
    rw [h.2]

theorem refuse (span : Span) (problem : Problem) : Flows (Lower.refuse span problem : Lower α) :=
  of_length (.refuse span problem) fun _ _ _ h => absurd h refuse_ne_ok

theorem bind {x : Lower α} {f : α → Lower β} (hx : Flows x) (hf : ∀ a, Flows (f a)) :
    Flows (x >>= f) := by
  refine ⟨hx.advances.bind fun a => (hf a).advances, fun b c b'' hopen hreach h => ?_⟩
  obtain ⟨a, _, hrun, hrest⟩ := bind_eq_ok.mp h
  obtain ⟨hext, hopen'⟩ := hx.advances hopen hrun
  have hnew := hx.connects hopen hreach hrun
  have hreach' := hext.reaches_current hopen.lt hreach hnew
  exact hnew.trans ((hf a).connects hopen' hreach' hrest)
    ((hf a).advances hopen' hrest).1.leads

theorem define {i : Register → Instruction} (hdest : ∀ r, (i r).dest? = some r)
    (hcode : ∀ r, (i r).isAlloca = false) : Flows (Lower.define i) :=
  of_length (.define hdest hcode) fun b _ b' h => by
    rw [define_run, Except.ok.injEq, Prod.mk.injEq] at h
    rw [← h.2, Builder.withDefinition_length]

theorem emit {i : Instruction} (hdest : i.dest? = none) : Flows (Lower.emit i) :=
  of_length (.emit hdest) fun b _ b' h => by
    rw [emit_run, Except.ok.injEq, Prod.mk.injEq] at h
    rw [← h.2, Builder.withInstruction_length]

theorem reserve (ty : IR.Ty) : Flows (Lower.reserve ty) :=
  of_length (.reserve ty) fun b _ b' h => by
    rw [reserve_run, Except.ok.injEq, Prod.mk.injEq] at h
    rw [← h.2, Builder.withSlot_length]

theorem symbol (symbols : SymbolTable) (id : SymbolId) (span : Span) :
    Flows (Lowering.symbol symbols id span) :=
  of_length (.symbol symbols id span) fun b op b' h => by rw [(Lowering.symbol_stages h).1]

theorem shortCircuit {isAnd : Bool} {left right : Lower IR.Value} (hleft : Flows left)
    (hright : Flows right) : Flows (Lowering.shortCircuit isAnd left right) := by
  refine ⟨.shortCircuit hleft.advances hright.advances, fun b op b' hopen hreach h => ?_⟩
  obtain ⟨lhs, b1, rhs, b2, _, hrun, hrun', rfl, -, rfl⟩ := Lowering.shortCircuit_stages h
  obtain ⟨hext1, hopen1⟩ := hleft.advances (hopen.withSlot _) hrun
  have hroute := Builder.detours hopen1 hright.advances hrun'
  -- The left operand.
  have hslot := ((Builder.Extends.refl b).slot .bool).leads
  have hnew1 := hleft.connects (hopen.withSlot _) (hreach.mono hslot) hrun
  have hreach1 := hext1.reaches_current (hopen.withSlot _).lt (hreach.mono hslot) hnew1
  have hslotted : b.Connects b1 := fun id hge => hnew1 id (by simpa using hge)
  -- The branch past the right operand.
  have hnew2 : b1.Connects (b1.enterCircuit isAnd b.nextRegister lhs) := by
    have hboth := Builder.connects_fork
      (b := b1.withInstruction (.store (.register b.nextRegister) lhs))
      (by simpa using hopen1.lt)
      (hreach1.mono ((Builder.Extends.refl b1).instruction hopen1 rfl).leads)
      (Builder.extends_enterCircuit hopen1 isAnd b.nextRegister lhs).leads
    intro id hge hid
    refine hboth ?_ ?_ id (by simpa using hge) hid
    · cases isAnd <;> simp [Builder.circuitBranch, Terminator.targets]
    · cases isAnd <;> simp [Builder.circuitBranch, Terminator.targets]
  -- The right operand, after which nothing is added any more.
  have hnew3 := hright.connects hroute.openRight (hnew2 _ (by simp) hroute.openRight.lt) hrun'
  have hlast : b2.Connects (b2.afterCircuit b.nextRegister rhs (b1.blocks.length + 1)) :=
    Builder.connects_of_length_le (by simp [Builder.afterCircuit, Builder.leaveCircuit])
  exact (hslotted.trans hnew2 hroute.branch.leads).trans (hnew3.trans hlast (hroute.finish rhs))
    (hroute.right.leads.trans (hroute.finish rhs))

theorem closed : Closed @Flows :=
  .of_steps pure refuse bind define emit reserve symbol shortCircuit

end Flows

end Lower

/-! ### Statements -/

namespace Lower

/-- Inside the given loop, control gets to all that the step adds. -/
def Connecting {α : Type} (loop : Option LoopTargets) (x : Lower α) : Prop :=
  ∀ ⦃b : Builder⦄ ⦃a : α⦄ ⦃b' : Builder⦄, b.IsOpen → b.Admits loop → b.Reaches b.current →
    x b = .ok (a, b') → b.Connects b'

theorem Flows.connecting {α : Type} {x : Lower α} (hx : Flows x) (loop : Option LoopTargets) :
    Connecting loop x :=
  fun _ _ _ hopen _ hreach h => hx.connects hopen hreach h

namespace Connecting

variable {α β : Type} {loop : Option LoopTargets}

theorem refuse (span : Span) (problem : Problem) :
    Connecting loop (Lower.refuse span problem : Lower α) :=
  (Flows.refuse span problem).connecting loop

theorem close (t : Terminator) : Connecting loop (Lower.close t) := by
  intro b u b' _ _ _ h
  rw [close_run, Except.ok.injEq, Prod.mk.injEq] at h
  exact Builder.connects_of_length_le (Nat.le_of_eq (by rw [← h.2, Builder.withTerminator_length]))

theorem bind {x : Lower α} {f : α → Lower β} (hx : Flows x)
    (hext : ∀ a, Extending loop (f a)) (hf : ∀ a, Connecting loop (f a)) :
    Connecting loop (x >>= f) := by
  intro b c b'' hopen hloop hreach h
  obtain ⟨a, _, hrun, hrest⟩ := bind_eq_ok.mp h
  obtain ⟨hext', hopen'⟩ := hx.advances hopen hrun
  have hnew := hx.connects hopen hreach hrun
  have hloop' := hloop.mono hext'.length_le
  have hreach' := hext'.reaches_current hopen.lt hreach hnew
  exact hnew.trans (hf a hopen' hloop' hreach' hrest) (hext a hopen' hloop' hrest).leads

theorem binding (symbols : SymbolTable) (symbol : SymbolId) (value : Option Typed.Expr) :
    Connecting loop (Lowering.binding symbols symbol value) := by
  intro b u b' hopen hloop hreach h
  obtain ⟨initial, b1, hvalue, rfl⟩ := Lowering.binding_stages h
  have hflows := Flows.closed.optionalValue symbols value
  have hslot := ((Builder.Extends.refl b).slot (symbols.symbolAt symbol).ty.shape).leads
  obtain ⟨_, hopen1⟩ := hflows.advances (hopen.withSlot _) hvalue
  have hnew := hflows.connects (hopen.withSlot _) (hreach.mono hslot) hvalue
  have hinitial := (Builder.extends_withInitial hopen1 b.nextRegister initial).leads
  intro id hge hid
  have hid' : id < b1.blocks.length := by
    cases initial with
    | none => exact hid
    | some v => simpa [Builder.withInitial] using hid
  have hreached : (b1.withInitial b.nextRegister initial).Reaches id :=
    (hnew id (by simpa using hge) hid').mono hinitial
  -- A slot for the variable changes no block.
  exact hreached

variable {condition : Lower IR.Value}

theorem fork {label : String} {value : IR.Value} {b b1 b2 : Builder} (hcond : Flows condition)
    (hroute : Builder.Branches loop label value b b1 b2) (hopen : b.IsOpen)
    (hreach : b.Reaches b.current) (hrun : condition b = .ok (value, b1)) :
    b.Connects (b1.enterThen label value) ∧
      ∀ id, b1.blocks.length ≤ id → id < b1.blocks.length + 2 →
        (b1.enterThen label value).Reaches id := by
  have hnew1 := hcond.connects hopen hreach hrun
  have hreach1 := hroute.condition.reaches_current hopen.lt hreach hnew1
  have hnew2 : b1.Connects (b1.enterThen label value) :=
    Builder.connects_fork hroute.isOpen.lt hreach1 hroute.fork.leads (by simp [Terminator.targets])
      (by simp [Terminator.targets])
  refine ⟨hnew1.trans hnew2 hroute.fork.leads, fun id hge hlt => hnew2 id hge ?_⟩
  simpa [Builder.enterThen] using hlt

theorem ifThen {thenBody : Lower Unit} (hcond : Flows condition)
    (hthenExt : Extending loop thenBody) (hthen : Connecting loop thenBody) :
    Connecting loop (Lowering.ifThen condition thenBody) := by
  intro b u b' hopen hloop hreach h
  obtain ⟨_, b1, b2, hrun, hrun', rfl⟩ := Lowering.ifThen_stages h
  have hroute := Builder.branches hopen hloop hcond.advances hthenExt hrun hrun'
  obtain ⟨hnew1, hreach1⟩ := fork hcond hroute hopen hreach hrun
  have hreachThen := hreach1 b1.blocks.length (Nat.le_refl _) (by simp)
  have hnew2 := hthen hroute.openFork hroute.admits hreachThen hrun'
  have hlast : b2.Connects (b2.resumeAt (b1.blocks.length + 1)) :=
    Builder.connects_of_length_le (by simp)
  exact hnew1.trans (hnew2.trans hlast hroute.resume) (hroute.branch.leads.trans hroute.resume)

theorem ifThenElse {thenBody elseBody : Lower Unit} (hcond : Flows condition)
    (hthenExt : Extending loop thenBody) (hthen : Connecting loop thenBody)
    (helseExt : Extending loop elseBody) (helse : Connecting loop elseBody) :
    Connecting loop (Lowering.ifThenElse condition thenBody elseBody) := by
  intro b u b' hopen hloop hreach h
  obtain ⟨value, b1, b2, b3, hrun, hrun', hrun'', rfl⟩ := Lowering.ifThenElse_stages h
  have hroute := (Builder.branches hopen hloop hcond.advances hthenExt hrun hrun').joins
    helseExt hrun''
  obtain ⟨hnew1, hreach1⟩ := fork hcond hroute.toBranches hopen hreach hrun
  have hreachThen := hreach1 b1.blocks.length (Nat.le_refl _) (by simp)
  have hnew2 := hthen hroute.openFork hroute.admits hreachThen hrun'
  have hreach2 := hroute.branch.reaches_current hroute.openFork.lt hreachThen hnew2
  -- The `else` branch starts in the second block of the fork.
  have hreachElse : (b2.movedTo (b1.blocks.length + 1)).Reaches (b1.blocks.length + 1) :=
    (hreach1 _ (Nat.le_succ _) (Nat.lt_succ_self _)).mono (hroute.branch.leads.trans hroute.move)
  have hnew3 := helse hroute.openElse hroute.admitsElse hreachElse hrun''
  have hreach3 := hroute.other.reaches_current hroute.openElse.lt hreachElse hnew3
  -- Then both are joined.
  have hother := hroute.move.trans hroute.other.leads
  have hlast := Builder.connects_joined hroute.thenExit_lt hroute.elseExit_lt hroute.exits_ne.symm
    (hreach2.mono hother) hreach3
  have hbranches : (b1.enterThen "if.else" value).Connects b3 := hnew2.trans hnew3 hother
  exact hnew1.trans (hbranches.trans hlast hroute.join)
    ((hroute.branch.leads.trans hother).trans hroute.join)

theorem whileLoop {body : LoopTargets → Lower Unit} (hcond : Flows condition)
    (hbodyExt : ∀ targets, Extending (some targets) (body targets))
    (hbody : ∀ targets, Connecting (some targets) (body targets)) :
    Connecting loop (Lowering.loop condition body) := by
  intro b u b' hopen hloop hreach h
  obtain ⟨value, b1, b2, hrun, hrun', rfl⟩ := Lowering.loop_stages h
  have hroute := Builder.circles hopen hcond.advances hbodyExt hrun hrun'
  -- The condition, which the block before the loop goes on to.
  have hreachLoop : b.enterLoop.Reaches b.blocks.length :=
    (Builder.Closes.enterLoop hopen).reaches hopen.lt (hreach.mono hroute.enter.leads)
      (by simp [Terminator.targets])
  have hnew1 := hcond.connects hroute.openLoop hreachLoop hrun
  have hreach1 := hroute.condition.reaches_current hroute.openLoop.lt hreachLoop hnew1
  -- The body and the end, which the branch after the condition goes to.
  have hcurrent : (b1.enterBody b.blocks.length value).Reaches b1.current :=
    hreach1.mono hroute.branch
  have hreachBody : (b1.enterBody b.blocks.length value).Reaches (b.blocks.length + 1) :=
    Builder.Closes.enterBody.reaches hroute.openCondition.lt hcurrent (by simp [Terminator.targets])
  have hreachEnd : (b1.enterBody b.blocks.length value).Reaches (b.blocks.length + 2) :=
    Builder.Closes.enterBody.reaches hroute.openCondition.lt hcurrent (by simp [Terminator.targets])
  have hnew2 := hbody b.loopTargets hroute.openBody hroute.admits hreachBody hrun'
  have hafter := hroute.body.leads.trans hroute.leave
  intro id hge hid
  have hid2 : id < b2.blocks.length := by simpa [Builder.leaveLoop] using hid
  by_cases hold : id < b1.blocks.length
  · by_cases hfirst : id < b.blocks.length + 3
    · -- One of the three blocks of the loop itself.
      have hthree : id = b.blocks.length ∨ id = b.blocks.length + 1 ∨ id = b.blocks.length + 2 := by
        have hge' : (b.blocks.length : Nat) ≤ id := hge
        have hfirst' : (id : Nat) < b.blocks.length + 3 := hfirst
        grind
      rcases hthree with rfl | rfl | rfl
      · exact hreachLoop.mono ((hroute.condition.leads.trans hroute.branch).trans hafter)
      · exact hreachBody.mono hafter
      · exact hreachEnd.mono hafter
    · have hge1 : b.enterLoop.blocks.length ≤ id := by
        simpa [Builder.enterLoop] using Nat.le_of_not_lt hfirst
      exact (hnew1 id hge1 hold).mono (hroute.branch.trans hafter)
  · have hge2 : (b1.enterBody b.blocks.length value).blocks.length ≤ id := by
      simpa [Builder.enterBody] using Nat.le_of_not_lt hold
    exact (hnew2 id hge2 hid2).mono hroute.leave

end Connecting

end Lower

namespace Typed.Stmt

open Lower (Flows Connecting)

mutual

/-- Control gets to all blocks that a statement adds. -/
theorem connecting_lower (symbols : SymbolTable) (loop : Option LoopTargets) :
    (s : Stmt) → Connecting loop (s.lower symbols loop)
  | .block stmts _ => connecting_lowerBlock symbols loop stmts
  | .binding symbol value _ => .binding symbols symbol value
  | .expression value =>
    ((Flows.closed.lowerValue symbols value).bind fun _ => .pure _).connecting loop
  | .ret value _ => by
    refine .bind (Flows.closed.optionalValue symbols value) (fun v => .close ?_) fun v => .close _
    cases v <;> rfl
  | .assign target value _ =>
    ((Flows.closed.lowerAddress symbols target).bind fun _ =>
      (Flows.closed.lowerValue symbols value).bind fun _ => .emit rfl).connecting loop
  | .conditional condition thenBody none _ =>
    .ifThen (Flows.closed.lowerValue symbols condition) (extending_lower symbols loop thenBody)
      (connecting_lower symbols loop thenBody)
  | .conditional condition thenBody (some elseBody) _ =>
    .ifThenElse (Flows.closed.lowerValue symbols condition) (extending_lower symbols loop thenBody)
      (connecting_lower symbols loop thenBody) (extending_lower symbols loop elseBody)
      (connecting_lower symbols loop elseBody)
  | .whileLoop condition body none _ =>
    .whileLoop (Flows.closed.lowerValue symbols condition)
      (fun targets => extending_lower symbols (some targets) body)
      fun targets => connecting_lower symbols (some targets) body
  | .whileLoop _ _ (some _) _ => .refuse _ _
  | .breakLoop _ | .continueLoop _ => by
    unfold lower Lowering.loopJump
    split
    · exact .close _
    · exact .refuse _ _
  | .yield _ _ => .refuse _ _
  | .deadCode _ _ => (Flows.pure _).connecting loop

theorem connecting_lowerBlock (symbols : SymbolTable) (loop : Option LoopTargets) :
    (stmts : List Stmt) → Connecting loop (lowerBlock symbols loop stmts)
  | [] => (Flows.pure _).connecting loop
  | stmt :: rest => by
    intro b u b' hopen hloop hreach h
    obtain ⟨b1, hstmt, hrest⟩ := lowerBlock_cons_stages hopen h
    have hext := extending_lower symbols loop stmt hopen hloop hstmt
    have hnew := connecting_lower symbols loop stmt hopen hloop hreach hstmt
    have hlt := hext.current_lt hopen.lt
    have hloop1 := hloop.mono hext.length_le
    have hext' := extends_of_lowerBlock (extending_lowerBlock symbols loop rest) hlt hloop1 hrest
    refine hnew.trans ?_ hext'.leads
    cases hclosed : b1.isClosed b1.current with
    | true =>
      rw [lowerBlock_of_closed hclosed, Except.ok.injEq, Prod.mk.injEq] at hrest
      exact Builder.connects_of_length_le (Nat.le_of_eq (by rw [hrest.2]))
    | false =>
      exact connecting_lowerBlock symbols loop rest (Builder.openAt_of_not_closed hlt hclosed)
        hloop1 (hext.reaches_current hopen.lt hreach hnew) hrest

end

end Typed.Stmt

/-! ### Functions -/

namespace Lowering

open Lower

theorem flows_params (symbols : SymbolTable) (ids : List SymbolId) (next : Nat) :
    Flows (params symbols next ids) := by
  refine .of_length (advances_params symbols ids next) ?_
  induction ids generalizing next with
  | nil =>
    intro b u b' h
    rw [params_nil_stages h]
  | cons _ _ ih =>
    intro b u b' h
    have hlength := ih (next + 1) _ _ _ (params_cons_stages h)
    simpa [Builder.withParam] using hlength

theorem connecting_body (symbols : SymbolTable) (returnsVoid : Bool) (body : Typed.Body) :
    Connecting none (Lowering.body symbols returnsVoid body) := by
  cases body with
  | empty => exact (Flows.pure _).connecting none
  | block stmts _ => exact Typed.Stmt.connecting_lowerBlock symbols none stmts
  | expression value =>
    refine .bind (Flows.closed.lowerValue symbols value) (fun v => .close ?_) fun v => .close _
    cases returnsVoid <;> rfl

/-- In the code of a function control gets to every block. -/
theorem reaches_code {symbols : SymbolTable} {returnsVoid : Bool} {f : Typed.Function}
    {b : Builder} (h : code symbols returnsVoid f .start = .ok ((), b)) {id : BlockId}
    (hid : id < b.blocks.length) : b.Reaches id := by
  have hcode : Connecting none (code symbols returnsVoid f) :=
    .bind (flows_params symbols f.params 0) (fun _ => extending_body symbols returnsVoid f.body)
      fun _ => connecting_body symbols returnsVoid f.body
  have hnew : Builder.start.Connects b :=
    hcode Builder.isOpen_start (Builder.admits_none _) .refl h
  cases id with
  | zero => exact .refl
  | succ id => exact hnew (id + 1) (Nat.le_add_left 1 id) hid

end Lowering

end Laye
