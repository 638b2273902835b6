import Laye.Proofs.Passes.Lowering
import Laye.Proofs.Lowering.Reachability
import Laye.Proofs.Lowering.SingleAssignment

/-!
# The control flow of a lowered function is well formed

`IR.Function.WellFormed` says what the blocks of a function promise to whoever walks through them:
blocks are numbered by their places, every block ends, jumps go to blocks that are there and never
back to the entry, and control gets to every block. The first three hold of the finished blocks
because each change to a builder keeps them (`Edit.numbered`); the last is
`Lowering.reaches_code`.
-/

namespace Laye

open IR

/-- The blocks of a function make up a complete control flow graph. -/
structure IR.Function.WellFormed (f : Function) : Prop where
  entry_eq : f.entry = 0
  /-- There is an entry block. -/
  entry_lt : f.entry < f.blocks.length
  /-- A block is numbered by its place. -/
  id_eq : ∀ (i : Nat) block, f.blocks[i]? = some block → block.id = i
  terminated : ∀ block ∈ f.blocks, ∃ t, block.terminator = some t
  /-- Jumps go to blocks that are there, but never to the entry, so that its slots are reserved
  once a call. -/
  targets : ∀ block ∈ f.blocks, ∀ next ∈ block.successors,
    (∃ target, f.blocks[next]? = some target ∧ target.id = next) ∧ next ≠ f.entry
  reachable : ∀ (i : Nat) block, f.blocks[i]? = some block → ∃ before, f.Path before i

/-! ### Numbers and targets -/

namespace Builder

variable {b b' : Builder}

/-- Blocks are numbered by their places, and go to blocks that are there, but not to the entry. -/
structure Numbered (b : Builder) : Prop where
  id_eq : ∀ (i : Nat) block, b.blocks[i]? = some block → block.id = i
  targets : ∀ (i : Nat) block, b.blocks[i]? = some block → ∀ next ∈ block.successors,
    next < b.blocks.length ∧ next ≠ entry

theorem numbered_start : start.Numbered := by
  refine ⟨fun i block hblock => ?_, fun i block hblock next hnext => ?_⟩
  · obtain ⟨rfl, rfl⟩ : i = 0 ∧ Block.empty entry "entry" = block := by
      simpa [start, List.getElem?_singleton] using hblock
    rfl
  · obtain ⟨rfl, rfl⟩ : i = 0 ∧ Block.empty entry "entry" = block := by
      simpa [start, List.getElem?_singleton] using hblock
    cases hnext

theorem Numbered.update (h : b.Numbered) (id : BlockId) {f : Block → Block}
    (hid : ∀ block, (f block).id = block.id)
    (htargets : ∀ block, ∀ next ∈ (f block).successors,
      next ∈ block.successors ∨ (next < b.blocks.length ∧ next ≠ entry)) :
    (b.update id f).Numbered := by
  have hlength : (b.update id f).blocks.length = b.blocks.length := by simp [Builder.update]
  refine ⟨fun i block' hblock' => ?_, fun i block' hblock' next hnext => ?_⟩
  · rw [getElem?_update] at hblock'
    split at hblock'
    · obtain ⟨block, hblock, rfl⟩ := Option.map_eq_some_iff.mp hblock'
      rw [hid, h.id_eq i block hblock]
    · exact h.id_eq i block' hblock'
  · rw [hlength]
    rw [getElem?_update] at hblock'
    split at hblock'
    · obtain ⟨block, hblock, rfl⟩ := Option.map_eq_some_iff.mp hblock'
      rcases htargets block next hnext with hold | hnew
      · exact h.targets i block hblock next hold
      · exact hnew
    · exact h.targets i block' hblock' next hnext

theorem Numbered.push (h : b.Numbered) (id : BlockId) (i : Instruction) :
    (b.update id (·.push i)).Numbered :=
  h.update id (fun _ => rfl) fun _ _ hnext => .inl hnext

theorem Numbered.withBlock (h : b.Numbered) (label : String) : (b.withBlock label).Numbered := by
  have hcases : ∀ (i : Nat) block, (b.withBlock label).blocks[i]? = some block →
      b.blocks[i]? = some block ∨ block = .empty i label := by
    intro i block hblock
    by_cases hlt : i < b.blocks.length
    · exact .inl (by rwa [getElem?_withBlock_of_lt hlt] at hblock)
    · have hi : i < b.blocks.length + 1 := by
        simpa using (List.getElem?_eq_some_iff.mp hblock).1
      obtain rfl : i = b.blocks.length :=
        Nat.le_antisymm (Nat.le_of_lt_succ hi) (Nat.le_of_not_lt hlt)
      exact .inr (by simpa [Builder.withBlock] using hblock.symm)
  refine ⟨fun i block hblock => ?_, fun i block hblock next hnext => ?_⟩
  · rcases hcases i block hblock with hold | rfl
    · exact h.id_eq i block hold
    · rfl
  · rcases hcases i block hblock with hold | rfl
    · obtain ⟨hlt, hne⟩ := h.targets i block hold next hnext
      rw [withBlock_length]
      exact ⟨Nat.lt_succ_of_lt hlt, hne⟩
    · cases hnext

end Builder

theorem Edit.numbered {own : BlockId → Prop} {b b' : Builder} (hedit : Edit own b b')
    (h : b.Numbered) : b'.Numbered := by
  have hfresh : Builder.Numbered { b with nextRegister := b.nextRegister + 1 } := ⟨h.1, h.2⟩
  cases hedit with
  | slot _ | definition i _ _ _ _ => exact hfresh.push _ _
  | instruction i _ _ _ => exact h.push _ _
  | block label => exact h.withBlock label
  | terminator id t _ _ htargets =>
    exact h.update id (fun _ => rfl) fun _ next hnext => .inr (htargets next hnext)
  | move _ _ _ | bound _ _ _ => exact ⟨h.1, h.2⟩

theorem Builder.Extends.numbered {b b' : Builder} (hext : b.Extends b') (h : b.Numbered) :
    b'.Numbered := by
  induction hext with
  | refl => exact h
  | tail _ hlast ih => exact hlast.numbered ih

/-! ### Functions -/

namespace Lowering

theorem closeOpen_id (block : Block) : (closeOpen block).id = block.id := by
  unfold closeOpen
  split <;> rfl

theorem closeOpen_terminated (block : Block) : ∃ t, (closeOpen block).terminator = some t := by
  unfold closeOpen
  split
  · rename_i hclosed
    exact Option.isSome_iff_exists.mp hclosed
  · exact ⟨.ret none, rfl⟩

theorem closeOpen_successors (block : Block) : (closeOpen block).successors = block.successors := by
  unfold closeOpen
  split
  · rfl
  · rename_i hopen
    have hnone : block.terminator = none := by simpa [Block.isClosed] using hopen
    simp [Block.successors, hnone, Block.close, Terminator.targets]

theorem exists_path {b : Builder} {g : Function} (hentry : g.entry = Builder.entry)
    (hblocks : g.blocks = b.blocks.map closeOpen) {id : BlockId} (h : b.Reaches id) :
    ∃ before, g.Path before id := by
  induction h with
  | refl => exact ⟨[], hentry ▸ .entry⟩
  | tail _ hgoes ih =>
    rename_i id _ _
    obtain ⟨before, hpath⟩ := ih
    obtain ⟨block, hblock, _⟩ := hgoes
    have hhere : g.blocks[id]? = some (closeOpen block) := by
      rw [hblocks, List.getElem?_map, hblock, Option.map_some]
    exact ⟨before ++ [id], .edge hpath hhere (by rwa [closeOpen_successors])⟩

/-- A function that lowering makes is well formed. -/
theorem Becomes.wellFormed {symbols : SymbolTable} {f : Typed.Function} {g : Function}
    (h : Becomes symbols f g) : g.WellFormed := by
  obtain ⟨_, b, -, hcode, hcomplete⟩ := h.built
  have hblocks : g.blocks = b.blocks.map closeOpen := complete_eq_ok hcomplete
  have hlength : g.blocks.length = b.blocks.length := by rw [hblocks, List.length_map]
  have hext := extends_code hcode
  have hnumbered : b.Numbered := hext.numbered Builder.numbered_start
  -- The finished blocks are those of the builder, ended where they were open.
  have hget : ∀ (i : Nat) block', g.blocks[i]? = some block' →
      ∃ block, b.blocks[i]? = some block ∧ block' = closeOpen block := by
    intro i block' hblock'
    rw [hblocks, List.getElem?_map] at hblock'
    obtain ⟨block, hblock, rfl⟩ := Option.map_eq_some_iff.mp hblock'
    exact ⟨block, hblock, rfl⟩
  have hid : ∀ (i : Nat) block', g.blocks[i]? = some block' → block'.id = i := by
    intro i block' hblock'
    obtain ⟨block, hblock, rfl⟩ := hget i block' hblock'
    rw [closeOpen_id, hnumbered.id_eq i block hblock]
  refine ⟨h.entry_eq, ?_, hid, ?_, ?_, ?_⟩
  · rw [h.entry_eq, hlength]
    exact hext.entry_lt
  · intro block' hmem
    rw [hblocks] at hmem
    obtain ⟨block, -, rfl⟩ := List.mem_map.mp hmem
    exact closeOpen_terminated block
  · intro block' hmem next hnext
    obtain ⟨i, hi⟩ := List.getElem?_of_mem hmem
    obtain ⟨block, hblock, rfl⟩ := hget i block' hi
    rw [closeOpen_successors] at hnext
    obtain ⟨hlt, hne⟩ := hnumbered.targets i block hblock next hnext
    obtain ⟨target, hthere⟩ : ∃ target, g.blocks[next]? = some target :=
      ⟨_, List.getElem?_eq_getElem (hlength ▸ hlt)⟩
    exact ⟨⟨target, hthere, hid next target hthere⟩, h.entry_eq ▸ hne⟩
  · intro i block' hblock'
    have hi : i < b.blocks.length := hlength ▸ (List.getElem?_eq_some_iff.mp hblock').1
    exact exists_path h.entry_eq hblocks (reaches_code hcode hi)

end Lowering

/-- The functions of a lowered program are well formed. The module comes out the same if lowering
ends in a trap as soon as it would change a block that is not open: so no terminator is replaced,
and nothing but stack slots in the entry is added to a block that has its terminator. -/
theorem Typed.Program.wellFormed_lower {p : Typed.Program} {name : String} {m : IR.Module}
    (h : p.lower name = .ok m) :
    (∀ g ∈ m.functions, g.WellFormed) ∧
      ∀ trap log, (Writer.guarded trap).program p name log = .ok (some m, log) := by
  refine ⟨fun g hg => ?_, fun trap log => ?_⟩
  · obtain ⟨f, -, hbecomes⟩ := becomes_of_mem_functions h hg
    exact hbecomes.wellFormed
  · rw [Writer.program_runs (Writer.onOpen_guarded trap) p name log, h]
    rfl

theorem Typed.Program.wellFormed_lower_spin :
    ∃ m g, spin.lower "spin" = .ok m ∧ m.functions = [g] ∧ 5 < g.blocks.length ∧ g.WellFormed ∧
      ∀ trap log, (Writer.guarded trap).program spin "spin" log = .ok (some m, log) := by
  have hok : (spin.lower "spin").isOk = true := by decide +kernel
  cases hm : spin.lower "spin" with
  | error fault => simp [hm, Except.isOk, Except.toBool] at hok
  | ok m =>
    obtain ⟨g, hg⟩ : ∃ g, m.functions = [g] :=
      List.length_eq_one_iff.mp (functions_lower hm).length_eq.symm
    have hlength : ((spin.lower "spin").toOption.any fun m =>
        m.functions.all fun g => 5 < g.blocks.length) = true := by decide +kernel
    rw [hm] at hlength
    obtain ⟨hfunctions, hguarded⟩ := wellFormed_lower hm
    exact ⟨m, g, rfl, hg, by simpa [Except.toOption, hg] using hlength,
      hfunctions g (by simp [hg]), hguarded⟩

end Laye
