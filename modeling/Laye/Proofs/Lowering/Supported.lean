import Laye.Proofs.Lowering.Extension

/-!
# Registers are defined before they are read

While a function is lowered, each block has registers that are known to be defined whenever the
block starts (`IR.Availability`). They are fixed when the block is added, from what is known where
the jumps to it come from. `Builder.Supported` says that all code so far reads only registers that
are known at its place, and `Builder.Knows` which registers are known at the place where code is
added next. Stack slots are known everywhere: they are reserved in the entry block, which runs
first.

The lemmas say how the changes of `Builder` act on both. `Lower.Reads` and
`Lower.ReadsWithin` state for a step of lowering that it only reads what is known.
-/

namespace Laye

namespace Builder

open IR (Availability)

variable {b b' : Builder} {known known' : Availability}

/-- The register is defined in block `id` once the instructions `done` of the block have run. -/
def Defined (b : Builder) (known : Availability) (id : IR.BlockId) (done : List IR.Instruction)
    (r : IR.Register) : Prop :=
  known id r ∨ r ∈ IR.Instruction.dests done ∨ (id ≠ entry ∧ b.Reserves r)

/-- The register is defined at the end of block `id`. -/
def KnowsAt (b : Builder) (known : Availability) (id : IR.BlockId) (r : IR.Register) : Prop :=
  ∃ block, b.blocks[id]? = some block ∧ b.Defined known id block.instructions r

/-- The register is defined at the end of the current block. -/
def Knows (b : Builder) (known : Availability) (r : IR.Register) : Prop :=
  b.KnowsAt known b.current r

/-- All code reads only registers that are defined where it stands. -/
structure Supported (b : Builder) (known : Availability) : Prop where
  entry : ∀ r, ¬ known entry r
  slots : ∀ symbol slot, (symbol, slot) ∈ b.slots → b.Reserves slot
  instructions : ∀ id block, b.blocks[id]? = some block → ∀ done i rest,
    block.instructions = done ++ i :: rest → ∀ r ∈ i.uses, b.Defined known id done r
  terminators : ∀ id block, b.blocks[id]? = some block → ∀ t, block.terminator = some t →
    ∀ r ∈ t.uses, b.Defined known id block.instructions r
  successors : ∀ id block, b.blocks[id]? = some block → ∀ next ∈ block.successors,
    next < b.blocks.length ∧ ∀ r, known next r → b.Defined known id block.instructions r

variable {id closed target : IR.BlockId} {r : IR.Register}

theorem Defined.mono {done done' : List IR.Instruction} (h : b.Defined known id done r)
    (hknown : known' id = known id) (hslots : ∀ r, b.Reserves r → b'.Reserves r)
    (hdone : ∃ extra, done' = done ++ extra) : b'.Defined known' id done' r := by
  obtain ⟨_, rfl⟩ := hdone
  rcases h with h | h | ⟨hne, hr⟩
  · exact .inl (hknown ▸ h)
  · exact .inr (.inl (by simp [h]))
  · exact .inr (.inr ⟨hne, hslots r hr⟩)

theorem KnowsAt.defined {block : IR.Block} (h : b.KnowsAt known id r)
    (hblock : b.blocks[id]? = some block) : b.Defined known id block.instructions r := by
  obtain ⟨_, hblock', hdefined⟩ := h
  rw [hblock, Option.some.injEq] at hblock'
  exact hblock' ▸ hdefined

theorem KnowsAt.mono (h : b.KnowsAt known id r) (hext : b.Extends b')
    (hknown : known' id = known id) : b'.KnowsAt known' id r := by
  obtain ⟨_, hblock, hdefined⟩ := h
  obtain ⟨block', hblock', hgrows⟩ := hext.grows hblock
  obtain ⟨extra, hcode, -⟩ := hgrows.code
  exact ⟨block', hblock', hdefined.mono hknown (fun _ => hext.reserves) ⟨extra, hcode⟩⟩

theorem Reserves.update {f : IR.Block → IR.Block} (h : b.Reserves r)
    (hf : ∀ block, (f block).instructions = block.instructions) : (b.update id f).Reserves r := by
  obtain ⟨block, ty, hblock, hmem⟩ := h
  by_cases hid : id = Builder.entry
  · exact ⟨f block, ty, by simp [getElem?_update, hid, hblock], by rw [hf]; exact hmem⟩
  · exact ⟨block, ty, by simp [getElem?_update, hid, hblock], hmem⟩

theorem KnowsAt.fallingFrom (h : b.KnowsAt known id r) :
    (b.fallingFrom closed target).KnowsAt known id r := by
  unfold Builder.fallingFrom
  split
  · exact h
  · obtain ⟨block, hblock, hdefined⟩ := h
    have hdefined' :
        (b.withTerminator closed (.jump target)).Defined known id block.instructions r :=
      hdefined.mono rfl (fun _ hr => hr.update fun _ => rfl) ⟨[], by simp⟩
    exact exists_update hblock (fun _ => hdefined') hdefined'

theorem OpenAt.of_fallingFrom (h : (b.fallingFrom closed target).OpenAt id) : b.OpenAt id := by
  unfold Builder.fallingFrom at h
  split at h
  · exact h
  · obtain ⟨block, hblock, hnone⟩ := h
    rw [Builder.withTerminator, getElem?_update] at hblock
    split at hblock
    · obtain ⟨_, -, rfl⟩ := Option.map_eq_some_iff.mp hblock
      simp [IR.Block.close] at hnone
    · exact ⟨block, hblock, hnone⟩

theorem knowsAt_of_known (hlt : id < b.blocks.length) (h : known id r) : b.KnowsAt known id r :=
  ⟨b.blocks[id], List.getElem?_eq_getElem hlt, .inl h⟩

/-- A reserved slot is known in the current block. -/
theorem Reserves.knows (h : b.Reserves r) (hlt : b.current < b.blocks.length)
    (known : Availability) : b.Knows known r := by
  refine ⟨b.blocks[b.current], List.getElem?_eq_getElem hlt, ?_⟩
  by_cases hentry : b.current = Builder.entry
  · obtain ⟨block, _, hblock, hmem⟩ := h
    have heq : b.blocks[b.current] = block := by
      rw [← hentry, List.getElem?_eq_getElem hlt, Option.some.injEq] at hblock
      exact hblock
    exact .inr (.inl (IR.Instruction.mem_dests.mpr ⟨_, heq ▸ hmem, rfl⟩))
  · exact .inr (.inr ⟨hentry, h⟩)

theorem knows_withDefinition {i : IR.Register → IR.Instruction} (hopen : b.IsOpen)
    (hdest : ∀ r, (i r).dest? = some r) (known : Availability) :
    (b.withDefinition i).Knows known b.nextRegister := by
  obtain ⟨block, hblock, -⟩ := hopen
  refine ⟨block.push (i b.nextRegister), ?_, .inr (.inl ?_)⟩
  · show (b.withDefinition i).blocks[b.current]? = _
    simp [withDefinition, getElem?_update, hblock]
  · exact IR.Instruction.mem_dests.mpr ⟨_, List.mem_append_right _ (List.mem_singleton.mpr rfl),
      hdest _⟩

theorem knows_withSlot (hopen : b.IsOpen) (ty : IR.Ty) (known : Availability) :
    (b.withSlot ty).Knows known b.nextRegister :=
  (reserves_withSlot (Nat.lt_of_le_of_lt (Nat.zero_le _) hopen.lt) ty).knows
    (hopen.withSlot ty).lt known

/-! ### Adding an instruction -/

/-- An instruction whose operands are known keeps the code supported. -/
theorem Supported.push {i : IR.Instruction} (h : b.Supported known) (hext : b.Extends b')
    (hblocks : b'.blocks = b.blocks.modify id (·.push i)) (hslots : b'.slots = b.slots)
    (huses : ∀ r ∈ i.uses, b.KnowsAt known id r) : b'.Supported known := by
  have hreserves : ∀ r, b.Reserves r → b'.Reserves r := fun _ => hext.reserves
  -- Every block comes from an old one, perhaps with the instruction at its end.
  have hold : ∀ j block', b'.blocks[j]? = some block' → ∃ block, b.blocks[j]? = some block ∧
      block'.terminator = block.terminator ∧
      (block'.instructions = block.instructions ∨
        (id = j ∧ block'.instructions = block.instructions ++ [i])) := by
    intro j block' hblock'
    rw [hblocks, List.getElem?_modify] at hblock'
    obtain ⟨block, hblock, rfl⟩ := Option.map_eq_some_iff.mp hblock'
    refine ⟨block, hblock, ?_⟩
    split
    · exact ⟨rfl, .inr ⟨by assumption, rfl⟩⟩
    · exact ⟨rfl, .inl rfl⟩
  have hgrown : ∀ block block' : IR.Block, ∀ j, (block'.instructions = block.instructions ∨
        (id = j ∧ block'.instructions = block.instructions ++ [i])) →
      ∃ extra, block'.instructions = block.instructions ++ extra := by
    rintro block block' j (heq | ⟨-, heq⟩)
    · exact ⟨[], by simp [heq]⟩
    · exact ⟨[i], heq⟩
  refine ⟨h.entry, ?_, ?_, ?_, ?_⟩
  · intro symbol slot hmem
    exact hreserves _ (h.slots symbol slot (hslots ▸ hmem))
  · intro j block' hblock' done k rest hsplit r hr
    obtain ⟨block, hblock, -, heq | ⟨rfl, heq⟩⟩ := hold j block' hblock'
    · exact (h.instructions j block hblock done k rest (heq ▸ hsplit) r hr).mono rfl hreserves
        ⟨[], by simp⟩
    · rw [heq] at hsplit
      -- The instruction in question is the new one or stands in the old code.
      rcases List.eq_nil_or_concat rest with rfl | ⟨rest', _, rfl⟩
      · obtain ⟨rfl, hlast⟩ := List.append_inj' hsplit rfl
        cases hlast
        exact ((huses r hr).defined hblock).mono rfl hreserves ⟨[], by simp⟩
      · rw [List.concat_eq_append, ← List.cons_append, ← List.append_assoc] at hsplit
        obtain ⟨hcode, -⟩ := List.append_inj' hsplit rfl
        exact (h.instructions id block hblock done k rest' hcode r hr).mono rfl hreserves
          ⟨[], by simp⟩
  · intro j block' hblock' t ht r hr
    obtain ⟨block, hblock, hterm, hcode⟩ := hold j block' hblock'
    exact (h.terminators j block hblock t (hterm ▸ ht) r hr).mono rfl hreserves
      (hgrown block block' j hcode)
  · intro j block' hblock' next hnext
    obtain ⟨block, hblock, hterm, hcode⟩ := hold j block' hblock'
    obtain ⟨hlt, hknown⟩ := h.successors j block hblock next
      (by simpa [IR.Block.successors, hterm] using hnext)
    exact ⟨by simpa [hblocks] using hlt,
      fun r hr => (hknown r hr).mono rfl hreserves (hgrown block block' j hcode)⟩

/-! ### Adding a terminator, a block or a variable -/

/-- Ending a block keeps the code supported, if what the terminator reads and what its targets
know is defined at the end of the block. -/
theorem Supported.terminator {t : IR.Terminator} (h : b.Supported known)
    (huses : ∀ r ∈ t.uses, b.KnowsAt known id r)
    (htargets : ∀ next ∈ t.targets,
      next < b.blocks.length ∧ ∀ r, known next r → b.KnowsAt known id r) :
    (b.withTerminator id t).Supported known := by
  have hreserves : ∀ r, b.Reserves r → (b.withTerminator id t).Reserves r :=
    fun _ hr => hr.update fun _ => rfl
  have hold : ∀ j block', (b.withTerminator id t).blocks[j]? = some block' →
      ∃ block, b.blocks[j]? = some block ∧ block'.instructions = block.instructions ∧
        (block'.terminator = block.terminator ∨ (id = j ∧ block'.terminator = some t)) := by
    intro j block' hblock'
    rw [withTerminator, getElem?_update] at hblock'
    split at hblock'
    · obtain ⟨block, hblock, rfl⟩ := Option.map_eq_some_iff.mp hblock'
      exact ⟨block, hblock, rfl, .inr ⟨by assumption, rfl⟩⟩
    · exact ⟨block', hblock', rfl, .inl rfl⟩
  refine ⟨h.entry, ?_, ?_, ?_, ?_⟩
  · intro symbol slot hmem
    exact hreserves _ (h.slots symbol slot hmem)
  · intro j block' hblock' done i rest hsplit r hr
    obtain ⟨block, hblock, hcode, -⟩ := hold j block' hblock'
    exact (h.instructions j block hblock done i rest (hcode ▸ hsplit) r hr).mono rfl hreserves
      ⟨[], by simp⟩
  · intro j block' hblock' t' ht' r hr
    obtain ⟨block, hblock, hcode, hterm | ⟨rfl, hterm⟩⟩ := hold j block' hblock'
    · exact (h.terminators j block hblock t' (hterm ▸ ht') r hr).mono rfl hreserves
        ⟨[], by simp [hcode]⟩
    · rw [hterm, Option.some.injEq] at ht'
      exact ((huses r (ht' ▸ hr)).defined hblock).mono rfl hreserves ⟨[], by simp [hcode]⟩
  · intro j block' hblock' next hnext
    obtain ⟨block, hblock, hcode, hterm | ⟨rfl, hterm⟩⟩ := hold j block' hblock'
    · obtain ⟨hlt, hknown⟩ := h.successors j block hblock next
        (by simpa [IR.Block.successors, hterm] using hnext)
      exact ⟨by simpa using hlt,
        fun r hr => (hknown r hr).mono rfl hreserves ⟨[], by simp [hcode]⟩⟩
    · obtain ⟨hlt, hknown⟩ := htargets next (by simpa [IR.Block.successors, hterm] using hnext)
      exact ⟨by simpa using hlt,
        fun r hr => ((hknown r hr).defined hblock).mono rfl hreserves ⟨[], by simp [hcode]⟩⟩

theorem Supported.block (h : b.Supported known) (hlt : 0 < b.blocks.length) (label : String)
    (start : IR.Register → Prop) :
    ∃ known', (b.withBlock label).Supported known' ∧
      (∀ id, id < b.blocks.length → known' id = known id) ∧ known' b.blocks.length = start := by
  have hreserves : ∀ r, b.Reserves r → (b.withBlock label).Reserves r :=
    fun _ => ((Extends.refl b).block label).reserves
  have hsame : ∀ id, id < b.blocks.length →
      Function.update known b.blocks.length start id = known id :=
    fun id hid => Function.update_of_ne (Nat.ne_of_lt hid) _ _
  have hold : ∀ id block, (b.withBlock label).blocks[id]? = some block →
      (id < b.blocks.length ∧ b.blocks[id]? = some block) ∨
      (block.instructions = [] ∧ block.terminator = none) := by
    intro id block hblock
    by_cases hid : id < b.blocks.length
    · rw [withBlock, List.getElem?_append_left hid] at hblock
      exact .inl ⟨hid, hblock⟩
    · rw [withBlock, List.getElem?_append_right (Nat.le_of_not_lt hid),
        List.getElem?_singleton] at hblock
      split at hblock
      · rw [Option.some.injEq] at hblock
        subst hblock
        exact .inr ⟨rfl, rfl⟩
      · cases hblock
  refine ⟨Function.update known b.blocks.length start, ⟨?_, ?_, ?_, ?_, ?_⟩, hsame,
    Function.update_self _ _ _⟩
  · intro r hr
    rw [hsame Builder.entry hlt] at hr
    exact h.entry r hr
  · intro symbol slot hmem
    exact hreserves _ (h.slots symbol slot hmem)
  · intro id block hblock done i rest hsplit r hr
    rcases hold id block hblock with ⟨hid, hblock⟩ | ⟨hcode, -⟩
    · exact (h.instructions id block hblock done i rest hsplit r hr).mono (hsame id hid) hreserves
        ⟨[], by simp⟩
    · simp [hcode] at hsplit
  · intro id block hblock t ht r hr
    rcases hold id block hblock with ⟨hid, hblock⟩ | ⟨-, hterm⟩
    · exact (h.terminators id block hblock t ht r hr).mono (hsame id hid) hreserves ⟨[], by simp⟩
    · simp [hterm] at ht
  · intro id block hblock next hnext
    rcases hold id block hblock with ⟨hid, hblock⟩ | ⟨-, hterm⟩
    · obtain ⟨hlt', hknown⟩ := h.successors id block hblock next hnext
      refine ⟨by simpa using Nat.lt_succ_of_lt hlt', fun r hr => ?_⟩
      rw [hsame next hlt'] at hr
      exact (hknown r hr).mono (hsame id hid) hreserves ⟨[], by simp⟩
    · simp [IR.Block.successors, hterm] at hnext

theorem Supported.withVariable (h : b.Supported known) {symbol : SymbolId} {slot : IR.Register}
    (hslot : b.Reserves slot) : (b.withVariable symbol slot).Supported known := by
  refine ⟨h.entry, ?_, h.instructions, h.terminators, h.successors⟩
  intro symbol' slot' hmem
  rcases List.mem_cons.mp hmem with heq | hmem
  · rw [Prod.mk.injEq] at heq
    exact heq.2 ▸ hslot
  · exact h.slots symbol' slot' hmem

theorem Supported.movedTo (h : b.Supported known) (id : IR.BlockId) :
    (b.movedTo id).Supported known :=
  ⟨h.entry, h.slots, h.instructions, h.terminators, h.successors⟩

/-! ### The stages -/

section

variable (h : b.Supported known)
include h

theorem Supported.fallingFrom (hlt : id < b.blocks.length) (htarget : target < b.blocks.length)
    (hfeeds : b.OpenAt id → ∀ r, known target r → b.KnowsAt known id r) :
    (b.fallingFrom id target).Supported known := by
  unfold Builder.fallingFrom
  split
  · exact h
  · rename_i hclosed
    have hopen : b.OpenAt id := openAt_of_not_closed hlt (by simpa using hclosed)
    refine h.terminator (by simp [IR.Terminator.uses, IR.Terminator.operands]) ?_
    intro next hnext
    rw [List.mem_singleton.mp hnext]
    exact ⟨htarget, hfeeds hopen⟩

theorem Supported.resumeAt (hlt : b.current < b.blocks.length) (htarget : target < b.blocks.length)
    (hfeeds : b.IsOpen → ∀ r, known target r → b.Knows known r) :
    (b.resumeAt target).Supported known :=
  (h.fallingFrom hlt htarget hfeeds).movedTo target

theorem Supported.fork {t : IR.Terminator} (hopen : b.IsOpen)
    (labels : String × String) (huses : ∀ r ∈ t.uses, b.Knows known r)
    (htargets : t.targets ⊆ [b.blocks.length, b.blocks.length + 1]) :
    ∃ known', (b.fork labels t).Supported known' ∧
      (∀ id, id < b.blocks.length → known' id = known id) ∧
      known' b.blocks.length = b.Knows known ∧ known' (b.blocks.length + 1) = b.Knows known := by
  have hlt : b.current < b.blocks.length := hopen.lt
  have hpos : 0 < b.blocks.length := Nat.lt_of_le_of_lt (Nat.zero_le _) hlt
  obtain ⟨_, h1, hsame1, hfirst⟩ := h.block hpos labels.1 (b.Knows known)
  obtain ⟨known2, h2, hsame2, hsecond⟩ := h1.block (by simp) labels.2 (b.Knows known)
  rw [withBlock_length] at hsame2 hsecond
  have hsame : ∀ id, id < b.blocks.length → known2 id = known id := fun id hid =>
    (hsame2 id (Nat.lt_succ_of_lt hid)).trans (hsame1 id hid)
  have hfirst2 : known2 b.blocks.length = b.Knows known :=
    (hsame2 _ (Nat.lt_succ_self _)).trans hfirst
  have hkeeps : ∀ r, b.Knows known r →
      ((b.withBlock labels.1).withBlock labels.2).KnowsAt known2 b.current r := fun r hr =>
    hr.mono (((Extends.refl b).block labels.1).block labels.2) (hsame _ hlt)
  refine ⟨known2, Supported.movedTo (h2.terminator (fun r hr => hkeeps r (huses r hr)) ?_) _, hsame,
    hfirst2, hsecond⟩
  intro next hnext
  rcases List.mem_cons.mp (htargets hnext) with rfl | hmem
  · refine ⟨?_, fun r hr => hkeeps r (hfirst2 ▸ hr)⟩
    rw [withBlock_length, withBlock_length]
    exact Nat.lt_succ_of_lt (Nat.lt_succ_self _)
  · rw [List.mem_singleton.mp hmem]
    exact ⟨by simp, fun r hr => hkeeps r (hsecond ▸ hr)⟩

theorem Supported.enterLoop (hopen : b.IsOpen) :
    ∃ known', b.enterLoop.Supported known' ∧ (∀ id, id < b.blocks.length → known' id = known id) ∧
      ∀ n : Nat, n < 3 → known' (b.blocks.length + n) = b.Knows known := by
  have hlt : b.current < b.blocks.length := hopen.lt
  have hpos : 0 < b.blocks.length := Nat.lt_of_le_of_lt (Nat.zero_le _) hlt
  obtain ⟨_, h1, hsame1, hfirst⟩ := h.block hpos "while.cond" (b.Knows known)
  obtain ⟨_, h2, hsame2, hsecond⟩ := h1.block (by simp) "while.body" (b.Knows known)
  obtain ⟨known3, h3, hsame3, hthird⟩ := h2.block (by simp) "while.end" (b.Knows known)
  simp only [withBlock_length] at hsame2 hsecond hsame3 hthird
  have hsame : ∀ id, id < b.blocks.length → known3 id = known id := fun id hid =>
    (hsame3 id (Nat.lt_add_right 2 hid)).trans
      ((hsame2 id (Nat.lt_succ_of_lt hid)).trans (hsame1 id hid))
  have hstarts : ∀ n : Nat, n < 3 → known3 (b.blocks.length + n) = b.Knows known := by
    intro n hn
    obtain rfl | rfl | rfl : n = 0 ∨ n = 1 ∨ n = 2 := by omega
    · exact (hsame3 _ (Nat.lt_succ_of_lt (Nat.lt_succ_self _))).trans
        ((hsame2 _ (Nat.lt_succ_self _)).trans hfirst)
    · exact (hsame3 _ (Nat.lt_succ_self _)).trans hsecond
    · exact hthird
  refine ⟨known3, Supported.resumeAt h3 ?_ ?_ ?_, hsame, hstarts⟩
  · simpa using Nat.lt_add_right 3 hlt
  · simp
  · intro _ r hr
    have hr' : b.Knows known r := hstarts 0 (by decide) ▸ hr
    exact hr'.mono ((((Extends.refl b).block _).block _).block _) (hsame _ hlt)

theorem Supported.joined {thenExit elseExit : IR.BlockId}
    (start : IR.Register → Prop) (hthen : thenExit < b.blocks.length)
    (helse : elseExit < b.blocks.length)
    (hthenKnows : b.OpenAt thenExit → ∀ r, start r → b.KnowsAt known thenExit r)
    (helseKnows : b.OpenAt elseExit → ∀ r, start r → b.KnowsAt known elseExit r)
    (hopen : ¬ (b.isClosed thenExit && b.isClosed elseExit)) :
    ∃ known', (b.joined thenExit elseExit).Supported known' ∧
      (∀ id, id < b.blocks.length → known' id = known id) ∧
      known' (b.joined thenExit elseExit).current = start := by
  have hpos : 0 < b.blocks.length := Nat.lt_of_le_of_lt (Nat.zero_le _) hthen
  obtain ⟨known', h', hsame, hstart⟩ := h.block hpos "if.end" start
  have hext : b.Extends (b.withBlock "if.end") := (Extends.refl b).block _
  have hopens : ∀ id, id < b.blocks.length → (b.withBlock "if.end").OpenAt id → b.OpenAt id := by
    rintro id hid ⟨block, hblock, hnone⟩
    rw [withBlock, List.getElem?_append_left hid] at hblock
    exact ⟨block, hblock, hnone⟩
  have h1 : ((b.withBlock "if.end").fallingFrom thenExit b.blocks.length).Supported known' := by
    refine h'.fallingFrom (by simpa using Nat.lt_succ_of_lt hthen) (by simp) ?_
    intro hthenOpen r hr
    exact (hthenKnows (hopens _ hthen hthenOpen) r (hstart ▸ hr)).mono hext (hsame _ hthen)
  have h2 : (((b.withBlock "if.end").fallingFrom thenExit b.blocks.length).fallingFrom elseExit
      b.blocks.length).Supported known' := by
    refine h1.fallingFrom (by simpa using Nat.lt_succ_of_lt helse) (by simp) ?_
    intro helseOpen r hr
    have helseOpen' : (b.withBlock "if.end").OpenAt elseExit := helseOpen.of_fallingFrom
    have hknows := helseKnows (hopens _ helse helseOpen') r (hstart ▸ hr)
    exact (hknows.mono hext (hsame _ helse)).fallingFrom
  refine ⟨known', ?_, hsame, ?_⟩
  · rw [Builder.joined, if_neg hopen]
    exact h2.movedTo _
  · rw [Builder.joined, if_neg hopen]
    exact hstart

end

end Builder

end Laye
