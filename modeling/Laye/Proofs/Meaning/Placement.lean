import Laye.Proofs.Lowering.Blocks
import Laye.Proofs.Meaning.Simulation

/-!
# Where a run is

A builder says where a run of the finished function is: in the current block, behind the code that
was built so far (`Activation.Placed`). From there the run goes on with what was built next. This
module has the ways to go on: an instruction at the end of the current block
(`Placed.follows_define`, `Placed.follows_emit`), a new slot (`Placed.follows_reserve`), and the end
of the block (`Placed.branch`, `Placed.jump`, `Placed.ret`).

Slots are reserved in the entry block at any time, so more of them may stand behind the code that
was built there. They run before the terminator does (`Placed.leave`), and all of them have run once
the entry is left.
-/

namespace Laye

open IR

variable {Val State : Type} {A : Activation Val State} {all : List (SymbolId × Register)}
  {b b' : Builder} {c c' : Config Val State}

namespace Activation

/-! ### The finished function -/

variable {slot : Register}

/-- The blocks of the function are what became of those of the builder. -/
def Completes (A : Activation Val State) (b : Builder) : Prop :=
  ∀ (id : BlockId) (block : Block), b.blocks[id]? = some block →
    ∃ block', A.blocks[id]? = some block' ∧ block.Grows b.nextRegister True block'

/-- The slot is reserved in the entry block of the function. -/
def Reserves (A : Activation Val State) (slot : Register) : Prop :=
  ∃ block ty, A.blocks[Builder.entry]? = some block ∧ .alloca slot ty ∈ block.instructions

namespace Completes

/-- What completes later code completes earlier code. -/
theorem of_leads (h : A.Completes b') (hleads : b.Leads b') : A.Completes b := by
  induction hleads with
  | refl => exact h
  | tail _ hlast ih =>
    refine ih fun id block hblock => ?_
    obtain ⟨mid, hmid, hgrows⟩ := hlast.grows hblock
    obtain ⟨block', hblock', hgrows'⟩ := h id mid hmid
    exact ⟨block', hblock', hgrows.trans hgrows' hlast.nextRegister_le⟩

theorem of_extends (h : A.Completes b') (hext : b.Extends b') : A.Completes b :=
  h.of_leads hext.leads

theorem reserves (h : A.Completes b) (hslot : b.Reserves slot) : A.Reserves slot := by
  obtain ⟨_, ty, hblock, hmem⟩ := hslot
  obtain ⟨block', hblock', hgrows⟩ := h _ _ hblock
  obtain ⟨_, hcode, -⟩ := hgrows.code
  exact ⟨block', ty, hblock', by rw [hcode]; exact List.mem_append_left _ hmem⟩

theorem reserves_of_lt (h : A.Completes b) (hpos : Builder.entry < b.blocks.length)
    (hslot : A.Reserves slot) (hlt : slot < b.nextRegister) : b.Reserves slot := by
  obtain ⟨_, ty, hblock', hmem⟩ := hslot
  have hblock : b.blocks[Builder.entry]? = some b.blocks[Builder.entry] :=
    List.getElem?_eq_getElem hpos
  obtain ⟨_, hgrown, hgrows⟩ := h _ _ hblock
  rw [hblock', Option.some.injEq] at hgrown
  subst hgrown
  obtain ⟨_, hcode, hdests, -⟩ := hgrows.code
  rw [hcode, List.mem_append] at hmem
  rcases hmem with hmem | hmem
  · exact ⟨_, ty, hblock, hmem⟩
  · have hle : b.nextRegister ≤ slot := hdests slot (Instruction.mem_dests.mpr ⟨_, hmem, rfl⟩)
    exact absurd hlt (Nat.not_lt_of_le hle)

end Completes

/-! ### Placed runs -/

/-- The run is where the builder is. The addresses of the slots that were reserved so far are in
their registers, and outside of the entry those of all slots. -/
structure Placed (A : Activation Val State) (all : List (SymbolId × Register)) (b : Builder)
    (c : Config Val State) : Prop where
  started : Builder.start.Extends b
  isOpen : b.IsOpen
  /-- The slots of variables are among all that the function will have. -/
  bound : b.slots ⊆ all
  block : c.block = b.current
  code : ∀ block, b.blocks[b.current]? = some block →
    ∃ block', A.blocks[b.current]? = some block' ∧
      block'.instructions = block.instructions ++ c.code
  slots : ∀ r, b.Reserves r ∨ (b.current ≠ Builder.entry ∧ A.Reserves r) →
    c.registers r = some (A.slotWord r)

namespace Placed

theorem entry_lt (h : A.Placed all b c) : Builder.entry < b.blocks.length := h.started.entry_lt

variable {α : Type} {E : Effect State α} {f : Config Val State → α → Config Val State}

section

variable (h : A.Placed all b c)
include h

/-- The instruction that the builder added is executed next. -/
theorem follows_push {i : Instruction} (hext : b.Extends b')
    (hopen : b'.IsOpen) (hcurrent : b'.current = b.current) (hslots : b'.slots = b.slots)
    (hblocks : b'.blocks = (b.update b.current (·.push i)).blocks) (hcompletes : A.Completes b')
    (hexec : ∀ code, A.execute { c with code := code } i = { c with code := code }.perform E f)
    (hf : ∀ c a, (f c a).block = c.block ∧ (f c a).code = c.code ∧ (f c a).state = c.state)
    (hready : ∀ code s a r, b'.Reserves r ∨ (b.current ≠ Builder.entry ∧ A.Reserves r) →
      (f { c with code := code, state := s } a).registers r = some (A.slotWord r)) :
    A.Follows 0 c (E c.state) fun a c' =>
      A.Placed all b' c' ∧ ∃ code s, c' = f { c with code := code, state := s } a := by
  obtain ⟨block, hblock, -⟩ := h.isOpen
  have hblock' : b'.blocks[b.current]? = some (block.push i) := by
    rw [hblocks, Builder.getElem?_update, if_pos rfl, hblock, Option.map_some]
  -- The finished block goes on with the instruction.
  obtain ⟨final, hfinal, hgrows⟩ := hcompletes _ _ hblock'
  obtain ⟨rest, hrest, -⟩ := hgrows.code
  have hcode : c.code = i :: rest := by
    obtain ⟨_, hfinal', hsplit⟩ := h.code block hblock
    rw [hfinal, Option.some.injEq] at hfinal'
    subst hfinal'
    rw [hrest, Block.push, List.append_assoc] at hsplit
    exact (List.append_cancel_left hsplit).symm
  have hstep : A.step c = ({ c with code := rest }.perform E f).map .running := by
    simp only [step, hcode, hexec]
    cases { c with code := rest }.perform E f <;> rfl
  cases hE : E c.state with
  | none =>
    refine not_returns_of_step_eq_none ?_
    rw [hstep, Config.perform, hE]
    rfl
  | some result =>
    obtain ⟨a, s⟩ := result
    obtain ⟨hsame, hsame', hstate⟩ := hf { c with code := rest, state := s } a
    refine ⟨1, f { c with code := rest, state := s } a, Nat.zero_le 1, .single ?_, hstate, ?_,
      rest, s, rfl⟩
    · rw [hstep, Config.perform, hE]
      rfl
    · refine ⟨h.started.trans hext, hopen, hslots ▸ h.bound, ?_, ?_, ?_⟩
      · rw [hsame, hcurrent]
        exact h.block
      · intro block1 hblock1
        rw [hcurrent, hblock', Option.some.injEq] at hblock1
        subst hblock1
        exact ⟨final, hcurrent ▸ hfinal, by rw [hrest, hsame']⟩
      · rw [hcurrent]
        exact hready rest s a

theorem follows_define {i : Register → Instruction}
    (hdest : ∀ r, (i r).dest? = some r) (hcode : ∀ r, (i r).isAlloca = false)
    (hcompletes : A.Completes (b.withDefinition i)) {w : α → Word Val}
    (hexec : ∀ code, A.execute { c with code := code } (i b.nextRegister) =
      { c with code := code }.perform E fun c' a => c'.define b.nextRegister (w a)) :
    A.Follows 0 c (E c.state) fun a c' => A.Placed all (b.withDefinition i) c' ∧
      c.Keeps b.nextRegister c' ∧ c'.registers b.nextRegister = some (w a) := by
  have hext : b.Extends (b.withDefinition i) :=
    (Builder.Extends.refl b).definition h.isOpen hdest hcode
  have hslot : ∀ r, (b.withDefinition i).Reserves r → b.Reserves r := by
    intro r hr
    rcases Builder.reserves_of_push hr with hr | ⟨_, hi⟩
    · exact hr
    · have halloca := hcode b.nextRegister
      rw [hi] at halloca
      cases halloca
  -- The register is that of an instruction, so it is not that of a slot.
  have hfresh : ¬ A.Reserves b.nextRegister := by
    intro hr
    have hr' := hcompletes.reserves_of_lt (by simpa using h.entry_lt) hr (Nat.lt_succ_self _)
    exact Nat.lt_irrefl _ ((hslot _ hr').lt h.started)
  refine (h.follows_push hext (h.isOpen.withDefinition i) rfl rfl rfl hcompletes hexec
    (fun _ _ => ⟨rfl, rfl, rfl⟩) ?_).mono ?_
  · intro code s a r hr
    have hne : r ≠ b.nextRegister := by
      rintro rfl
      exact hfresh (hr.elim hcompletes.reserves And.right)
    rw [Config.define_of_ne _ _ hne]
    exact h.slots r (hr.imp_left (hslot r))
  · rintro a _ ⟨hplaced, code, s, rfl⟩
    exact ⟨hplaced, (Config.Keeps.elsewhere c _ code s).define (Nat.le_refl _) _,
      Config.define_self _ _ _⟩

theorem follows_emit {i : Instruction} (hdest : i.dest? = none)
    (hcompletes : A.Completes (b.withInstruction i))
    (hexec : ∀ code, A.execute { c with code := code } i = { c with code := code }.perform E f)
    (hf : ∀ c a, (f c a).block = c.block ∧ (f c a).code = c.code ∧ (f c a).state = c.state ∧
      (f c a).registers = c.registers) :
    A.Follows 0 c (E c.state) fun a c' => A.Placed all (b.withInstruction i) c' ∧
      ∃ code s, c' = f { c with code := code, state := s } a := by
  have hext : b.Extends (b.withInstruction i) :=
    (Builder.Extends.refl b).instruction h.isOpen hdest
  refine h.follows_push hext (h.isOpen.withInstruction i) rfl rfl rfl hcompletes hexec
    (fun c a => ⟨(hf c a).1, (hf c a).2.1, (hf c a).2.2.1⟩) ?_
  intro code s a r hr
  rw [(hf _ a).2.2.2]
  refine h.slots r (hr.imp_left fun hr => ?_)
  rcases Builder.reserves_of_push hr with hr | ⟨_, rfl⟩
  · exact hr
  · cases hdest

theorem follows_fill {v : IR.Value} {x : Val}
    (hcompletes : A.Completes (b.withInstruction (.store (.register slot) v)))
    (hslot : c.registers slot = some (.slot slot [])) (hv : A.value c v = some x) :
    A.Follows 0 c ((pure () : Effect State Unit) c.state) fun _ c' =>
      A.Placed all (b.withInstruction (.store (.register slot) v)) c' ∧
        c'.registers = c.registers ∧ c'.slots = (c.fill slot x).slots := by
  refine (h.follows_emit rfl hcompletes (f := fun c' _ => c'.fill slot x) (fun code => ?_)
    fun _ _ => ⟨rfl, rfl, rfl, rfl⟩).mono ?_
  · have hv' : A.value { c with code := code } v = some x := by
      rw [← hv]
      cases v <;> rfl
    have hslot' : A.word { c with code := code } (.register slot) = some (.slot slot []) := hslot
    simp only [execute, hv', hslot', Option.bind_eq_bind, Option.bind_some]
    rfl
  · rintro a _ ⟨hplaced, code, s, rfl⟩
    exact ⟨hplaced, rfl, rfl⟩

theorem follows_reserve {ty : IR.Ty} (hcompletes : A.Completes (b.withSlot ty)) :
    A.Follows 0 c ((pure () : Effect State Unit) c.state) fun _ c' =>
      A.Placed all (b.withSlot ty) c' ∧ c.Keeps b.nextRegister c' ∧
        c'.registers b.nextRegister = some (A.slotWord b.nextRegister) := by
  have hext : b.Extends (b.withSlot ty) := (Builder.Extends.refl b).slot ty
  have hslot : ∀ r, (b.withSlot ty).Reserves r → r = b.nextRegister ∨ b.Reserves r := by
    intro r hr
    rcases Builder.reserves_of_push hr with hr | ⟨_, hi⟩
    · exact .inr hr
    · exact .inl (Instruction.alloca.inj hi).1.symm
  by_cases hentry : b.current = Builder.entry
  · have hblocks : (b.withSlot ty).blocks =
        (b.update b.current (·.push (.alloca b.nextRegister ty))).blocks := by
      rw [hentry]
      rfl
    refine (h.follows_push hext (h.isOpen.withSlot ty) rfl rfl hblocks hcompletes
      (f := fun c' _ => c'.define b.nextRegister (A.slotWord b.nextRegister)) (fun _ => rfl)
      (fun _ _ => ⟨rfl, rfl, rfl⟩) ?_).mono ?_
    · intro code s a r hr
      rcases hr with hr | ⟨hne, -⟩
      · by_cases heq : r = b.nextRegister
        · rw [heq]
          exact Config.define_self _ _ _
        · rw [Config.define_of_ne _ _ heq]
          exact h.slots r (.inl ((hslot r hr).resolve_left heq))
      · exact absurd hentry hne
    · rintro a _ ⟨hplaced, code, s, rfl⟩
      exact ⟨hplaced, (Config.Keeps.elsewhere c _ code s).define (Nat.le_refl _) _,
        Config.define_self _ _ _⟩
  · have hready : ∀ r, A.Reserves r → c.registers r = some (A.slotWord r) := fun r hr =>
      h.slots r (.inr ⟨hentry, hr⟩)
    have hsame : (b.withSlot ty).blocks[b.current]? = b.blocks[b.current]? := by
      rw [Builder.withSlot, Builder.getElem?_update, if_neg (Ne.symm hentry)]
    refine .pure ⟨⟨h.started.trans hext, h.isOpen.withSlot ty, h.bound, h.block, ?_, ?_⟩,
      .refl c _, ?_⟩
    · intro block hblock
      exact h.code block (hsame ▸ hblock)
    · intro r hr
      exact hready r (hr.elim hcompletes.reserves And.right)
    · exact hready _ (hcompletes.reserves (Builder.reserves_withSlot h.entry_lt ty))

end

end Placed

/-! ### The end of a block -/

/-- The run is at the start of a block that is not the entry. -/
structure Arrived (A : Activation Val State) (id : BlockId) (c : Config Val State) : Prop where
  block : c.block = id
  code : ∃ block, A.blocks[id]? = some block ∧ c.code = block.instructions
  slots : ∀ r, A.Reserves r → c.registers r = some (A.slotWord r)

/-- Control that arrived at an empty block is placed at its start. -/
theorem Arrived.placed (h : A.Arrived b.current c) (hcompletes : A.Completes b)
    (hstarted : Builder.start.Extends b) (hbound : b.slots ⊆ all) (hempty : b.EmptyAt b.current) :
    A.Placed all b c := by
  refine ⟨hstarted, hempty.openAt, hbound, h.block, ?_, ?_⟩
  · intro block hblock
    obtain ⟨_, hblock'⟩ := hempty
    rw [hblock, Option.some.injEq] at hblock'
    subst hblock'
    obtain ⟨final, hfinal, hcode⟩ := h.code
    exact ⟨final, hfinal, hcode.symm⟩
  · intro r hr
    exact h.slots r (hr.elim hcompletes.reserves And.right)

theorem steps_allocas {code : List Instruction} (hall : ∀ i ∈ code, i.isAlloca = true)
    (hcode : c.code = code) :
    ∃ n c', A.Steps n c c' ∧ c'.block = c.block ∧ c'.code = [] ∧ c'.state = c.state ∧
      c'.slots = c.slots ∧
      (∀ r ∈ Instruction.dests code, c'.registers r = some (A.slotWord r)) ∧
      ∀ r, r ∉ Instruction.dests code → c'.registers r = c.registers r := by
  induction code generalizing c with
  | nil => exact ⟨0, c, .refl c, rfl, hcode, rfl, rfl, by simp, fun _ _ => rfl⟩
  | cons i rest ih =>
    cases i with
    | alloca dest _ =>
      have hstep : A.step c =
          some (.running ({ c with code := rest }.define dest (A.slotWord dest))) := by
        rw [step, hcode]
        rfl
      obtain ⟨n, c', hsteps, hblock, hdone, hstate, hslots, hnew, hold⟩ :=
        ih (c := { c with code := rest }.define dest (A.slotWord dest))
          (fun i hi => hall i (by simp [hi])) rfl
      refine ⟨n + 1, c', .head hstep hsteps, hblock, hdone, hstate, hslots, ?_, ?_⟩
      · intro r hr
        by_cases hmem : r ∈ Instruction.dests rest
        · exact hnew r hmem
        · rw [hold r hmem]
          rcases List.mem_cons.mp hr with rfl | hr
          · exact Config.define_self _ _ _
          · exact absurd hr hmem
      · intro r hr
        have hne : r ≠ dest := fun heq => hr (by simp [heq, Instruction.dests, Instruction.dest?])
        have hmem : r ∉ Instruction.dests rest := fun hmem =>
          hr (List.mem_cons_of_mem dest hmem)
        rw [hold r hmem]
        exact Config.define_of_ne _ _ hne
    | _ => cases hall _ List.mem_cons_self

namespace Placed

/-- Control reaches the terminator of the open block, with all slots reserved. -/
theorem leave (h : A.Placed all b c) {t : Terminator} (hcloses : b.Closes b' t)
    (hcompletes : A.Completes b') :
    ∃ n c', A.Steps n c c' ∧ A.step c' = A.finish c' t ∧ c'.state = c.state ∧
      c.Keeps b.nextRegister c' ∧ ∀ r, A.Reserves r → c'.registers r = some (A.slotWord r) := by
  obtain ⟨block, hblock, -⟩ := h.isOpen
  obtain ⟨closed, hclosed, hterm, extra, hextra, hdests, hallocas⟩ := hcloses.block block hblock
  obtain ⟨final, hfinal, hgrows⟩ := hcompletes _ _ hclosed
  obtain ⟨extra', hextra', hdests', hallocas'⟩ := hgrows.code
  have hsettled : closed.terminator ≠ none ∨ ¬ True := .inl (by simp [hterm])
  -- What is left of the block reserves slots.
  have hcode : c.code = extra ++ extra' := by
    obtain ⟨_, hfinal', hsplit⟩ := h.code block hblock
    rw [hfinal, Option.some.injEq] at hfinal'
    subst hfinal'
    rw [hextra', hextra, List.append_assoc] at hsplit
    exact (List.append_cancel_left hsplit).symm
  have hall : ∀ i ∈ extra ++ extra', i.isAlloca = true := by
    intro i hi
    exact (List.mem_append.mp hi).elim (hallocas i) (hallocas' hsettled i)
  have hfresh : ∀ r ∈ Instruction.dests (extra ++ extra'), b.nextRegister ≤ r := by
    intro r hr
    rw [Instruction.dests_append, List.mem_append] at hr
    exact hr.elim (hdests r) fun hr => Nat.le_trans hcloses.nextRegister_le (hdests' r hr)
  obtain ⟨n, c', hsteps, hsame, hdone, hstate, hslots, hnew, hold⟩ := steps_allocas hall hcode
  have hkeeps : c.Keeps b.nextRegister c' :=
    ⟨fun r hr => hold r fun hmem => absurd hr (Nat.not_lt_of_le (hfresh r hmem)),
      fun r _ => by rw [hslots]⟩
  refine ⟨n, c', hsteps, ?_, hstate, hkeeps, ?_⟩
  · have hend : final.terminator = some t := by rw [hgrows.terminator hsettled, hterm]
    rw [step, hdone, hsame, h.block, hfinal]
    simp [hend]
  · intro r hr
    by_cases hmem : r ∈ Instruction.dests (extra ++ extra')
    · exact hnew r hmem
    rw [hold r hmem]
    by_cases hentry : b.current = Builder.entry
    · -- In the entry block, the slot stands in what was built or in what is left.
      obtain ⟨_, ty, hfirst, hslot⟩ := hr
      rw [← hentry, hfinal, Option.some.injEq] at hfirst
      subst hfirst
      rw [hextra', hextra, List.append_assoc, List.mem_append] at hslot
      rcases hslot with hslot | hslot
      · exact h.slots r (.inl ⟨block, ty, hentry ▸ hblock, hslot⟩)
      · exact absurd (Instruction.mem_dests.mpr ⟨_, hslot, rfl⟩) hmem
    · exact h.slots r (.inr ⟨hentry, hr⟩)

theorem arrived_goto {target : BlockId} (hcompletes : A.Completes b)
    (hlt : target < b.blocks.length)
    (hslots : ∀ r, A.Reserves r → c.registers r = some (A.slotWord r)) :
    ∃ c', A.goto c target = some (.running c') ∧ c'.state = c.state ∧ A.Arrived target c' ∧
      ∀ n, c.Keeps n c' := by
  obtain ⟨block, hblock, -⟩ := hcompletes _ _ (List.getElem?_eq_getElem hlt)
  refine ⟨{ c with block := target, code := block.instructions }, ?_, rfl,
    ⟨rfl, ⟨block, hblock, rfl⟩, hslots⟩, fun _ => ⟨fun _ _ => rfl, fun _ _ => rfl⟩⟩
  rw [goto, hblock]
  rfl

theorem jump (h : A.Placed all b c) {target : BlockId} (hcloses : b.Closes b' (.jump target))
    (hcompletes : A.Completes b') (hlt : target < b'.blocks.length) :
    A.Follows 1 c ((pure () : Effect State Unit) c.state) fun _ c' =>
      A.Arrived target c' ∧ c.Keeps b.nextRegister c' := by
  obtain ⟨n, _, hsteps, hstep, hstate, hkeeps, hslots⟩ := h.leave hcloses hcompletes
  obtain ⟨c2, hgoto, hstate', harrived, hkeeps'⟩ := arrived_goto hcompletes hlt hslots
  exact ⟨n + 1, c2, Nat.le_add_left 1 n, hsteps.trans (.single (hstep.trans hgoto)),
    hstate'.trans hstate, harrived, hkeeps.trans (hkeeps' _) (Nat.le_refl _)⟩

theorem branch (h : A.Placed all b c) {v : IR.Value} {x : Val} {thenTarget elseTarget : BlockId}
    (hcloses : b.Closes b' (.branch v thenTarget elseTarget)) (hcompletes : A.Completes b')
    (hthen : thenTarget < b'.blocks.length) (helse : elseTarget < b'.blocks.length)
    (hv : ∀ c', c.Keeps b.nextRegister c' → A.value c' v = some x) :
    A.Follows 1 c (A.machine.test x c.state) fun decision c' =>
      A.Arrived (if decision then thenTarget else elseTarget) c' ∧
        c.Keeps b.nextRegister c' := by
  obtain ⟨n, c1, hsteps, hstep, hstate, hkeeps, hslots⟩ := h.leave hcloses hcompletes
  have hfinish : A.step c1 = (A.machine.truth x).bind fun decision =>
      A.goto c1 (if decision then thenTarget else elseTarget) := by
    rw [hstep, finish, hv c1 hkeeps]
    rfl
  cases htruth : A.machine.truth x with
  | none =>
    simp only [Machine.test, htruth, Option.map_none]
    rw [htruth] at hfinish
    exact hsteps.not_returns (not_returns_of_step_eq_none hfinish)
  | some decision =>
    have hlt : (if decision then thenTarget else elseTarget) < b'.blocks.length := by
      cases decision
      · exact helse
      · exact hthen
    obtain ⟨c2, hgoto, hstate', harrived, hkeeps'⟩ := arrived_goto hcompletes hlt hslots
    simp only [Machine.test, htruth, Option.map_some]
    rw [htruth] at hfinish
    exact ⟨n + 1, c2, Nat.le_add_left 1 n, hsteps.trans (.single (hfinish.trans hgoto)),
      hstate'.trans hstate, harrived, hkeeps.trans (hkeeps' _) (Nat.le_refl _)⟩

theorem ret (h : A.Placed all b c) {value : Option IR.Value} {x : Option Val}
    (hcloses : b.Closes b' (.ret value)) (hcompletes : A.Completes b')
    (hv : ∀ c', c.Keeps b.nextRegister c' →
      A.finish c' (.ret value) = some (.returned x c'.state)) :
    A.Follows 0 c ((pure () : Effect State Unit) c.state) fun _ c' =>
      A.step c' = some (.returned x c'.state) := by
  obtain ⟨n, c1, hsteps, hstep, hstate, hkeeps, -⟩ := h.leave hcloses hcompletes
  exact ⟨n, c1, Nat.zero_le n, hsteps, hstate, hstep.trans (hv c1 hkeeps)⟩

end Placed

end Activation

end Laye
