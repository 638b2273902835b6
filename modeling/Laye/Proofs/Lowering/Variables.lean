import Laye.Proofs.Lowering.Blocks
import Laye.Proofs.Lowering.SingleAssignment

/-!
# The slots of variables

While a function is lowered, its variables get stack slots. This module says which. Only bindings
and parameters get one. Each gets a slot of its own, in a register that was not used before
(`Builder.Binds`). Expressions give no slot to any variable (`Lower.Binds.closed`), so what they
reserve are temporaries. `Lowering.binds_code` sums it up for a function.

A variable gets no more slots than there are declarations of it: the slots are given in the order in
which the function introduces its variables (`Lowering.declares_code`).
-/

namespace Laye

/-! ### Reserved registers -/

namespace Builder

variable {b b' b'' : Builder} {P : SymbolId → Prop}

theorem Reserves.lt (h : start.Extends b) {slot : IR.Register} (hslot : b.Reserves slot) :
    slot < b.nextRegister := by
  obtain ⟨block, _, hblock, hmem⟩ := hslot
  refine (h.distinct (by decide) distinct_start).lt slot (IR.Instruction.mem_dests.mpr ?_)
  exact ⟨_, List.mem_flatMap.mpr ⟨block, List.mem_of_getElem? hblock, hmem⟩, rfl⟩

variable {entry : SymbolId × IR.Register}

theorem reserves_of_mem_slots (h : start.Extends b) (hmem : entry ∈ b.slots) :
    b.Reserves entry.2 := by
  rcases h.mem_slots_or_reserves hmem with hmem | hslot
  · simp [start] at hmem
  · exact hslot

theorem lt_of_mem_slots (h : start.Extends b) (hmem : entry ∈ b.slots) : entry.2 < b.nextRegister :=
  (reserves_of_mem_slots h hmem).lt h

/-! ### New slots of variables -/

/-- Between the two builders, variables that satisfy `P` got slots of their own, in new
registers. -/
structure Binds (P : SymbolId → Prop) (b b' : Builder) : Prop where
  nextRegister_le : b.nextRegister ≤ b'.nextRegister
  slots : ∃ added, b'.slots = added ++ b.slots ∧
    (∀ e ∈ added, P e.1 ∧ b.nextRegister ≤ e.2 ∧ e.2 < b'.nextRegister) ∧
    added.Pairwise fun e e' => e'.2 < e.2

namespace Binds

theorem of_same (hle : b.nextRegister ≤ b'.nextRegister) (hslots : b'.slots = b.slots) :
    b.Binds P b' :=
  ⟨hle, [], by simp [hslots]⟩

theorem trans (h : b.Binds P b') (h' : b'.Binds P b'') : b.Binds P b'' := by
  obtain ⟨added, hslots, hadded, hpairs⟩ := h.slots
  obtain ⟨added', hslots', hadded', hpairs'⟩ := h'.slots
  refine ⟨Nat.le_trans h.nextRegister_le h'.nextRegister_le, added' ++ added, ?_, ?_, ?_⟩
  · rw [hslots', hslots, List.append_assoc]
  · intro e he
    rcases List.mem_append.mp he with he | he
    · obtain ⟨hP, hge, hlt⟩ := hadded' e he
      exact ⟨hP, Nat.le_trans h.nextRegister_le hge, hlt⟩
    · obtain ⟨hP, hge, hlt⟩ := hadded e he
      exact ⟨hP, hge, Nat.lt_of_lt_of_le hlt h'.nextRegister_le⟩
  · refine List.pairwise_append.mpr ⟨hpairs', hpairs, fun e he e' he' => ?_⟩
    exact Nat.lt_of_lt_of_le (hadded e' he').2.2 (hadded' e he).2.1

theorem withVariable {symbol : SymbolId} {slot : IR.Register} (hle : b.nextRegister ≤ slot)
    (hlt : slot < b'.nextRegister) (hslots : b'.slots = b.slots) (hP : P symbol) :
    b.Binds P (b'.withVariable symbol slot) := by
  refine ⟨Nat.le_trans hle (Nat.le_of_lt hlt), [(symbol, slot)],
    by simp [Builder.withVariable, hslots], ?_, by simp⟩
  intro e he
  rw [List.mem_singleton.mp he]
  exact ⟨hP, hle, hlt⟩

theorem slots_eq (h : b.Binds (fun _ => False) b') : b'.slots = b.slots := by
  obtain ⟨added, hslots, hadded, -⟩ := h.slots
  cases added with
  | nil => exact hslots
  | cons e _ => exact (hadded e (by simp)).1.elim

end Binds

end Builder

/-! ### Steps of lowering -/

namespace Lower

/-- The step gives slots only to variables that satisfy `P`. -/
def Binds {α : Type} (P : SymbolId → Prop) (x : Lower α) : Prop :=
  ∀ ⦃b : Builder⦄ ⦃a : α⦄ ⦃b' : Builder⦄, x b = .ok (a, b') → b.Binds P b'

namespace Binds

variable {α β : Type} {P : SymbolId → Prop}

theorem of_run {x : Lower α} (f : Builder → α × Builder) (hrun : ∀ b, x b = .ok (f b))
    (hle : ∀ b, b.nextRegister ≤ (f b).2.nextRegister) (hslots : ∀ b, (f b).2.slots = b.slots) :
    Binds P x := by
  intro b a b' h
  rw [hrun, Except.ok.injEq] at h
  have hb' : (f b).2 = b' := congrArg Prod.snd h
  exact .of_same (hb' ▸ hle b) (hb' ▸ hslots b)

theorem pure (a : α) : Binds P (Pure.pure a : Lower α) :=
  of_run (fun b => (a, b)) (fun _ => rfl) (fun _ => Nat.le_refl _) fun _ => rfl

theorem bind {x : Lower α} {f : α → Lower β} (hx : Binds P x) (hf : ∀ a, Binds P (f a)) :
    Binds P (x >>= f) := by
  intro b c b'' h
  obtain ⟨a, _, hrun, hrest⟩ := bind_eq_ok.mp h
  exact (hx hrun).trans (hf a hrest)

theorem refuse (span : Span) (problem : Problem) : Binds P (Lower.refuse span problem : Lower α) :=
  fun _ _ _ h => absurd h refuse_ne_ok

theorem define (i : IR.Register → IR.Instruction) : Binds P (Lower.define i) :=
  of_run _ (define_run i) (fun b => by simp) fun b => by simp

theorem emit (i : IR.Instruction) : Binds P (Lower.emit i) :=
  of_run _ (emit_run i) (fun b => by simp) fun b => by simp

theorem uniform : Uniform (Binds P) where
  pure := pure
  refuse := refuse
  bind := bind
  define := fun _ => define _
  emit := fun _ => emit _
  reserve := fun ty => of_run _ (reserve_run ty) (fun b => by simp) fun b => by simp
  slotOf? := fun id => of_run _ (slotOf?_run id) (fun b => by simp) fun b => by simp
  newBlock := fun label => of_run _ (newBlock_run label) (fun b => by simp) fun b => by simp
  currentBlock := of_run _ currentBlock_run (fun b => by simp) fun b => by simp
  moveTo := fun id => of_run _ (moveTo_run id) (fun b => by simp) fun b => by simp
  isClosed := fun id => of_run _ (isClosed_run id) (fun b => by simp) fun b => by simp
  closeBlock := fun id t => of_run (fun b => ((), b.withTerminator id t)) (fun _ => rfl)
    (fun b => by simp) fun b => by simp

theorem closed : Closed (Binds P) :=
  .of_steps pure refuse bind (fun _ _ => define _) (fun _ => emit _) uniform.reserve
    uniform.plain.symbol uniform.plain.shortCircuit

theorem binding {symbols : SymbolTable} {symbol : SymbolId} (value : Option Typed.Expr)
    (hP : P symbol) : Binds P (Lowering.binding symbols symbol value) := by
  intro b u b' h
  obtain ⟨initial, b1, hvalue, rfl⟩ := Lowering.binding_stages h
  have hbinds : (b.withSlot _).Binds (fun _ => False) b1 :=
    closed.optionalValue symbols value hvalue
  have hlt : b.nextRegister < b1.nextRegister := hbinds.nextRegister_le
  cases initial with
  | none | some v => exact .withVariable (Nat.le_refl _) hlt hbinds.slots_eq hP

end Binds

end Lower

/-! ### Functions -/

namespace Lowering

open Lower (Binds bind_eq_ok)

variable {symbols : SymbolTable} {returnsVoid : Bool} {f : Typed.Function} {signature : Signature}

theorem binds_params {ids : List SymbolId} (next : Nat)
    (h : ∀ id ∈ ids, symbols.isBinding id = true) :
    Binds (symbols.isBinding ·) (params symbols next ids) := by
  induction ids generalizing next with
  | nil => exact .pure _
  | cons symbol _ ih =>
    intro b u b' hrun
    have hparam : b.Binds (symbols.isBinding ·)
        (b.withParam symbol (symbols.symbolAt symbol).ty.shape next) :=
      .withVariable (Nat.le_refl _) (Nat.lt_succ_self _) rfl (h symbol (by simp))
    exact hparam.trans (ih (next + 1) (fun id hid => h id (by simp [hid]))
      (params_cons_stages hrun))

theorem binds_body {returnType : Ty} {body : Typed.Body} (h : body.WellTyped symbols returnType) :
    Binds (symbols.isBinding ·) (Lowering.body symbols returnsVoid body) := by
  refine Binds.uniform.body returnsVoid (fun n hn => ⟨fun e _ => Binds.closed.lower symbols e, ?_⟩)
    fun e _ => Binds.closed.lower symbols e
  rintro id value span rfl
  obtain ⟨_, hwell⟩ := h.of_mem_stmts hn
  cases hwell with
  | binding _ hsymbol hkind _ _ =>
    exact .binding value (SymbolTable.isBinding_of_getElem? hsymbol hkind)

theorem isBinding_of_mem_params (h : f.WellTyped symbols signature) {id : SymbolId}
    (hid : id ∈ f.params) : symbols.isBinding id = true := by
  obtain ⟨i, hi, rfl⟩ := List.getElem_of_mem hid
  have hall := List.forall₂_iff_get.mp h.params
  obtain ⟨_, hsymbol, hkind, -⟩ := hall.2 i hi (hall.1 ▸ hi)
  exact SymbolTable.isBinding_of_getElem? hsymbol hkind

/-- In the code of a well-typed function only variables have slots, and no two share one. -/
theorem binds_code {b : Builder} (h : f.WellTyped symbols signature)
    (hcode : code symbols returnsVoid f .start = .ok ((), b)) :
    (∀ e ∈ b.slots, symbols.isBinding e.1 = true) ∧ b.slots.Pairwise fun e e' => e'.2 < e.2 := by
  have hbinds : Binds (symbols.isBinding ·) (code symbols returnsVoid f) :=
    (binds_params 0 fun _ hid => isBinding_of_mem_params h hid).bind fun _ => binds_body h.body
  obtain ⟨added, hslots, hadded, hpairs⟩ := (hbinds hcode).slots
  have hall : b.slots = added := by rw [hslots]; simp [Builder.start]
  rw [hall]
  exact ⟨fun e he => (hadded e he).1, hpairs⟩

end Lowering

/-! ### One slot for each declaration -/

namespace Builder

variable {b b' b'' : Builder} {ids ids' : List SymbolId}

/-- Between the two builders, some of the variables `ids` got slots, in this order. -/
def Declares (ids : List SymbolId) (b b' : Builder) : Prop :=
  ∃ added, b'.slots = added ++ b.slots ∧ (added.map Prod.fst).reverse.Sublist ids

namespace Declares

theorem of_slots_eq (h : b'.slots = b.slots) : b.Declares ids b' := ⟨[], by simp [h]⟩

theorem trans (h : b.Declares ids b') (h' : b'.Declares ids' b'') :
    b.Declares (ids ++ ids') b'' := by
  obtain ⟨added, hslots, hadded⟩ := h
  obtain ⟨added', hslots', hadded'⟩ := h'
  refine ⟨added' ++ added, by rw [hslots', hslots, List.append_assoc], ?_⟩
  rw [List.map_append, List.reverse_append]
  exact hadded.append hadded'

/-- Nothing between the builders `b1` and `b2` but the step from one to the other gives slots. -/
theorem inside {b1 b2 : Builder} (h : b1.Declares ids b2) (hbefore : b1.slots = b.slots)
    (hafter : b'.slots = b2.slots) : b.Declares ids b' := by
  obtain ⟨added, hslots, hadded⟩ := h
  exact ⟨added, by rw [hafter, hslots, hbefore], hadded⟩

end Declares

end Builder

namespace Typed.Stmt

open Builder (Declares)
open Lower (Binds)

variable {symbols : SymbolTable}

/-- The code of an expression gives no slots to variables. -/
theorem slots_of_lowerValue {b b' : Builder} {e : Expr} {v : IR.Value}
    (h : e.lowerValue symbols b = .ok (v, b')) : b'.slots = b.slots :=
  Builder.Binds.slots_eq (Binds.closed.lowerValue symbols e h)

/-- Neither does that of a statement that declares none and has no statements in it. -/
theorem slots_of_leaf {s : Stmt} (hnodes : s.nodes = [s])
    (hother : ∀ id value span, s ≠ .binding id value span) {loop : Option LoopTargets}
    {b b' : Builder} (h : s.lower symbols loop b = .ok ((), b')) : b'.slots = b.slots := by
  refine Builder.Binds.slots_eq (keeps_lower Binds.uniform loop s (fun n hn => ?_) h)
  rw [hnodes, List.mem_singleton] at hn
  subst hn
  exact ⟨fun e _ => Binds.closed.lower symbols e, fun id value span hs =>
    absurd hs (hother id value span)⟩

mutual

/-- The code of a statement gives slots to variables that the statement introduces. -/
theorem declares_lower : (s : Stmt) → {loop : Option LoopTargets} → {b b' : Builder} →
    s.lower symbols loop b = .ok ((), b') → b.Declares s.introduced b'
  | .block stmts _, _, _, _, h => declares_lowerBlock stmts h
  | .binding symbol value _, _, b, _, h => by
    obtain ⟨_, b1, hvalue, rfl⟩ := Lowering.binding_stages h
    have hslots : b1.slots = (b.withSlot _).slots :=
      Builder.Binds.slots_eq (Binds.closed.optionalValue symbols value hvalue)
    exact ⟨[(symbol, b.nextRegister)], by simp [Builder.withVariable, hslots], by simp [introduced]⟩
  | .conditional _ body none _, _, b, _, h => by
    obtain ⟨_, b1, _, hcondition, hbody, rfl⟩ := Lowering.ifThen_stages h
    have hslots : b1.slots = b.slots := slots_of_lowerValue hcondition
    exact (declares_lower body hbody).inside hslots (by simp)
  | .conditional _ body (some elseBody) _, _, b, _, h => by
    obtain ⟨_, b1, b2, _, hcondition, hbody, helse, rfl⟩ := Lowering.ifThenElse_stages h
    have hslots : b1.slots = b.slots := slots_of_lowerValue hcondition
    have hthen : b.Declares body.introduced b2 := (declares_lower body hbody).inside hslots rfl
    exact hthen.trans ((declares_lower elseBody helse).inside rfl (by simp))
  | .whileLoop _ body none _, _, b, _, h => by
    obtain ⟨_, b1, _, hcondition, hbody, rfl⟩ := Lowering.loop_stages h
    have hslots : b1.slots = b.enterLoop.slots := slots_of_lowerValue hcondition
    exact (declares_lower body hbody).inside (hslots.trans (by simp)) (by simp)
  | .whileLoop _ _ (some _) _, _, _, _, h | .yield _ _, _, _, _, h => absurd h Lower.refuse_ne_ok
  | .expression _, _, _, _, h | .ret _ _, _, _, _, h | .assign _ _ _, _, _, _, h
  | .breakLoop _, _, _, _, h | .continueLoop _, _, _, _, h =>
    .of_slots_eq (slots_of_leaf rfl (by simp) h)
  | .deadCode _ _, _, _, _, h => by
    cases h
    exact .of_slots_eq rfl

theorem declares_lowerBlock : (stmts : List Stmt) → {loop : Option LoopTargets} →
    {b b' : Builder} → lowerBlock symbols loop stmts b = .ok ((), b') →
      b.Declares (introducedAll stmts) b'
  | [], _, _, _, h => by
    cases h
    exact .of_slots_eq rfl
  | stmt :: rest, _, b, _, h => by
    unfold lowerBlock at h
    simp only [Lower.bind_eq_ok, Lower.currentBlock_run, Lower.isClosed_run, Except.ok.injEq,
      Prod.mk.injEq, ↓existsAndEq, true_and] at h
    cases hclosed : b.isClosed b.current with
    | true =>
      rw [hclosed, if_pos rfl] at h
      cases h
      exact .of_slots_eq rfl
    | false =>
      rw [hclosed, if_neg (by simp)] at h
      obtain ⟨_, _, hstmt, hrest⟩ := Lower.bind_eq_ok.mp h
      exact (declares_lower stmt hstmt).trans (declares_lowerBlock rest hrest)

end

end Typed.Stmt

namespace Lowering

variable {symbols : SymbolTable} {b b' : Builder}

theorem declares_params {ids : List SymbolId} {next : Nat}
    (h : params symbols next ids b = .ok ((), b')) : b.Declares ids b' := by
  induction ids generalizing next b with
  | nil =>
    rw [params_nil_stages h]
    exact .of_slots_eq rfl
  | cons symbol _ ih =>
    have hfirst : b.Declares [symbol]
        (b.withParam symbol (symbols.symbolAt symbol).ty.shape next) :=
      ⟨[(symbol, b.nextRegister)], rfl, by simp⟩
    exact hfirst.trans (ih (params_cons_stages h))

/-- The slots of a function are given in the order in which it introduces its variables. -/
theorem declares_code {returnsVoid : Bool} {f : Typed.Function}
    (h : code symbols returnsVoid f b = .ok ((), b')) : b.Declares f.introduced b' := by
  obtain ⟨_, b1, hparams, hbody⟩ := Lower.bind_eq_ok.mp h
  refine (declares_params hparams).trans ?_
  cases hform : f.body with
  | empty =>
    rw [hform] at hbody
    cases hbody
    exact .of_slots_eq rfl
  | block stmts _ =>
    rw [hform] at hbody
    exact Typed.Stmt.declares_lowerBlock stmts hbody
  | expression _ =>
    rw [hform] at hbody
    obtain ⟨v, b2, hvalue, hclose⟩ := Lower.bind_eq_ok.mp hbody
    have hslots : b2.slots = b1.slots := Typed.Stmt.slots_of_lowerValue hvalue
    rw [Lower.close_run] at hclose
    cases hclose
    exact .of_slots_eq (by simpa using hslots)

/-- A variable that is introduced once has one slot. -/
theorem nodup_slots {returnsVoid : Bool} {f : Typed.Function}
    (h : code symbols returnsVoid f .start = .ok ((), b)) (honce : f.introduced.Nodup) :
    (b.slots.map Prod.fst).Nodup := by
  obtain ⟨added, hslots, hadded⟩ := declares_code h
  have hall : b.slots = added := by simpa [Builder.start] using hslots
  rw [hall]
  exact (List.pairwise_reverse.mp (hadded.nodup honce)).imp Ne.symm

end Lowering

end Laye
