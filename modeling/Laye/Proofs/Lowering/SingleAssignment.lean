import Laye.Proofs.Lowering.Functions
import Laye.Proofs.Lowering.Reads

/-!
# Lowered functions are in single assignment form

`Typed.Program.singleAssignment_lower`: in every function of a lowered program, no register is
defined twice, and on every path from the entry a register is defined before it is read. Nothing is
asked of the program but that it can be lowered.

The first half is an invariant of the changes to a builder (`Builder.Extends.distinct`). The second
half comes from the registers that are known at the start of each block while the function is built
(`Builder.Supported`).
-/

namespace Laye

open IR.Instruction (dests)

/-! ### Distinct destinations -/

namespace IR

theorem flatMap_modify_push {id : BlockId} (i : Instruction) : {blocks : List Block} →
    id < blocks.length → List.Perm ((blocks.modify id (·.push i)).flatMap Block.instructions)
      (i :: blocks.flatMap Block.instructions)
  | block :: _, hlt => by
    cases id with
    | zero => exact (List.perm_append_singleton i block.instructions).append_right _
    | succ _ =>
      exact ((flatMap_modify_push i (Nat.lt_of_succ_lt_succ hlt)).append_left _).trans
        List.perm_middle

theorem flatMap_modify_close (id : BlockId) (t : Terminator) (blocks : List Block) :
    (blocks.modify id (·.close t)).flatMap Block.instructions =
      blocks.flatMap Block.instructions := by
  induction blocks generalizing id with
  | nil => simp
  | cons _ _ ih =>
    cases id with
    | zero => simp [Block.close]
    | succ _ => simp [ih]

end IR

namespace Builder

/-- No register is defined twice, and those to come are not defined yet. -/
structure Distinct (b : Builder) : Prop where
  nodup : (dests (b.blocks.flatMap IR.Block.instructions)).Nodup
  lt : ∀ r ∈ dests (b.blocks.flatMap IR.Block.instructions), r < b.nextRegister

variable {b b' : Builder}

theorem Distinct.of_eq (h : b.Distinct) (hnext : b'.nextRegister = b.nextRegister)
    (hcode : b'.blocks.flatMap IR.Block.instructions = b.blocks.flatMap IR.Block.instructions) :
    b'.Distinct :=
  ⟨hcode ▸ h.nodup, hcode ▸ hnext ▸ h.lt⟩

theorem Distinct.push {id : IR.BlockId} {i : IR.Instruction} (h : b.Distinct)
    (hlt : id < b.blocks.length) (hblocks : b'.blocks = b.blocks.modify id (·.push i))
    (hdest : (i.dest? = none ∧ b'.nextRegister = b.nextRegister) ∨
      (i.dest? = some b.nextRegister ∧ b'.nextRegister = b.nextRegister + 1)) : b'.Distinct := by
  have hperm : (dests (b'.blocks.flatMap IR.Block.instructions)).Perm
      (i.dest?.toList ++ dests (b.blocks.flatMap IR.Block.instructions)) := by
    rw [hblocks]
    refine ((IR.flatMap_modify_push i hlt).filterMap _).trans (.of_eq ?_)
    cases hi : i.dest? <;> simp [hi, dests]
  rcases hdest with ⟨hnone, hnext⟩ | ⟨hsome, hnext⟩
  · simp only [hnone, Option.toList_none, List.nil_append] at hperm
    exact ⟨hperm.nodup_iff.mpr h.nodup, fun r hr => hnext ▸ h.lt r (hperm.mem_iff.mp hr)⟩
  · simp only [hsome, Option.toList_some, List.singleton_append] at hperm
    refine ⟨hperm.nodup_iff.mpr (List.nodup_cons.mpr ⟨?_, h.nodup⟩), fun r hr => ?_⟩
    · intro hmem
      exact Nat.lt_irrefl _ (h.lt _ hmem)
    · rw [hnext]
      rcases List.mem_cons.mp (hperm.mem_iff.mp hr) with rfl | hmem
      · exact Nat.lt_succ_self _
      · exact Nat.lt_succ_of_lt (h.lt r hmem)

end Builder

theorem Edit.distinct {own : IR.BlockId → Prop} {b b' : Builder} (h : Edit own b b')
    (hpos : 0 < b.blocks.length) (hb : b.Distinct) : b'.Distinct := by
  cases h with
  | slot _ => exact hb.push hpos rfl (.inr ⟨rfl, rfl⟩)
  | definition i _ hopen hdest _ =>
    exact hb.push hopen.lt rfl (.inr ⟨hdest b.nextRegister, rfl⟩)
  | instruction i _ hopen hdest => exact hb.push hopen.lt rfl (.inl ⟨hdest, rfl⟩)
  | block _ => exact hb.of_eq rfl (by simp [Builder.withBlock, IR.Block.empty])
  | terminator id t _ _ _ =>
    exact hb.of_eq rfl (IR.flatMap_modify_close id t b.blocks)
  | move _ _ _ | bound _ _ _ => exact hb.of_eq rfl rfl

theorem Builder.Extends.distinct {b b' : Builder} (h : b.Extends b') (hpos : 0 < b.blocks.length)
    (hb : b.Distinct) : b'.Distinct := by
  induction h with
  | refl => exact hb
  | tail hinit hlast ih =>
    exact hlast.distinct (Nat.lt_of_lt_of_le hpos (Builder.Extends.length_le hinit)) ih

/-! ### Functions -/

namespace Builder

open IR (Availability)

theorem distinct_start : start.Distinct := ⟨by simp [start, IR.Block.empty], by
  simp [start, IR.Block.empty]⟩

theorem supported_start : start.Supported fun _ _ => False := by
  have hblock : ∀ (id : IR.BlockId) (block : IR.Block), start.blocks[id]? = some block →
      block = .empty entry "entry" := by
    intro id block hblock
    exact List.mem_singleton.mp (List.mem_of_getElem? hblock)
  refine ⟨fun _ h => h, by simp [start], ?_, ?_, ?_⟩
  · intro id block h done i rest hsplit
    simp [hblock id block h, IR.Block.empty] at hsplit
  · intro id block h t ht
    simp [hblock id block h, IR.Block.empty] at ht
  · intro id block h next hnext
    simp [hblock id block h, IR.Block.empty, IR.Block.successors] at hnext

theorem later_withParam {b : Builder} {known : Availability} (hopen : b.IsOpen)
    (hsup : b.Supported known) (symbol : SymbolId) (ty : IR.Ty) (place : Nat) :
    b.Later known (b.withParam symbol ty place) known := by
  have hopen1 := hopen.withSlot ty
  have hlater1 : b.Later known (b.withSlot ty) known := .slot hopen hsup ty
  have hstore : (b.withSlot ty).Later known
      ((b.withSlot ty).withInstruction (.store (.register b.nextRegister) (.param place)))
        known := by
    refine .instruction hopen1 hlater1.supported rfl fun r hr => ?_
    rcases IR.Instruction.mem_uses_store.mp hr with hr | hr
    · exact Option.some.inj hr ▸ knows_withSlot hopen ty known
    · cases hr
  have hreserves : ((b.withSlot ty).withInstruction
      (.store (.register b.nextRegister) (.param place))).Reserves b.nextRegister :=
    ((Extends.refl _).instruction hopen1 rfl).reserves
      (reserves_withSlot (Nat.lt_of_le_of_lt (Nat.zero_le _) hopen.lt) ty)
  have hbound : ((b.withSlot ty).withInstruction
      (.store (.register b.nextRegister) (.param place))).Later known
        (b.withParam symbol ty place) known :=
    .of_extends (hopen1.withInstruction _) ((Extends.refl _).bound hreserves) rfl
      (hstore.supported.withVariable hreserves)
  exact (hlater1.trans hopen1 hstore).trans (hopen1.withInstruction _) hbound

end Builder

namespace Lowering

open Lower

variable {symbols : SymbolTable} {returnsVoid : Bool} {f : Typed.Function}
  {code blocks : List IR.Block}

theorem later_params {ids : List SymbolId} {next : Nat} {b b' : Builder} {known : IR.Availability}
    (hopen : b.IsOpen) (hsup : b.Supported known) (h : params symbols next ids b = .ok ((), b')) :
    b.Later known b' known := by
  induction ids generalizing next b with
  | nil =>
    rw [params_nil_stages h]
    exact .refl hopen hsup
  | cons symbol _ ih =>
    have hparam := Builder.later_withParam hopen hsup symbol (symbols.symbolAt symbol).ty.shape next
    have hopen' := Builder.isOpen_withParam hopen symbol (symbols.symbolAt symbol).ty.shape next
    exact hparam.trans hopen' (ih hopen' hparam.supported (params_cons_stages h))

theorem reads_body (symbols : SymbolTable) (returnsVoid : Bool) (body : Typed.Body) :
    ReadsWithin none (Lowering.body symbols returnsVoid body) := by
  cases body with
  | empty => exact .of_reads (.pure fun _ hr => hr.elim)
  | block stmts _ => exact Typed.Stmt.reads_lowerBlock symbols none stmts
  | expression value =>
    refine .ret (f := fun v => if returnsVoid then none else some v) ?_
    intro b v b' known hopen hsup hneeds h
    obtain ⟨known', hlater, hopen', hgives⟩ := value.reads_lowerValue symbols _ hopen hsup hneeds h
    refine ⟨known', hlater, hopen', ?_⟩
    rintro r ⟨w, hw, hr⟩
    split at hw
    · cases hw
    · cases hw
      exact hgives r hr

theorem supported_code {b : Builder}
    (h : Lowering.code symbols returnsVoid f .start = .ok ((), b)) :
    ∃ known, b.Supported known := by
  obtain ⟨_, _, hparams, hbody⟩ := bind_eq_ok.mp h
  have hlater := later_params Builder.isOpen_start Builder.supported_start hparams
  have hopen := (advances_params symbols f.params 0 Builder.isOpen_start hparams).2
  obtain ⟨known, hlater'⟩ := reads_body symbols returnsVoid f.body hopen hlater.supported
    (Builder.feeds_none _ _) hbody
  exact ⟨known, hlater'.supported⟩

theorem closeOpen_instructions (block : IR.Block) :
    (closeOpen block).instructions = block.instructions := by
  unfold closeOpen
  split <;> rfl

theorem closeOpen_terminator (block : IR.Block) :
    (closeOpen block).terminator = block.terminator ∨
      (closeOpen block).terminator = some (.ret none) := by
  unfold closeOpen
  split
  · exact .inl rfl
  · exact .inr rfl

theorem closeOpen_of_closed {block : IR.Block} (h : block.isClosed = true) :
    closeOpen block = block :=
  if_pos h

section

variable (h : complete returnsVoid f code = .ok blocks)
include h

theorem complete_eq_ok : blocks = code.map closeOpen := by
  unfold complete at h
  split at h
  · exact (Except.ok.inj h).symm
  · split at h
    · rename_i hclosed
      have hsame : code.map closeOpen = code.map id := List.map_congr_left fun block hblock =>
        closeOpen_of_closed (List.all_eq_true.mp hclosed block hblock)
      rw [hsame, List.map_id, ← Except.ok.inj h]
    · cases h

theorem complete_block {id : IR.BlockId} {block' : IR.Block} (hblock' : blocks[id]? = some block') :
    ∃ block, code[id]? = some block ∧ block'.instructions = block.instructions ∧
      (block'.terminator = block.terminator ∨ block'.terminator = some (.ret none)) := by
  rw [complete_eq_ok h, List.getElem?_map] at hblock'
  obtain ⟨block, hblock, rfl⟩ := Option.map_eq_some_iff.mp hblock'
  exact ⟨block, hblock, closeOpen_instructions block, closeOpen_terminator block⟩

theorem complete_instructions :
    blocks.flatMap IR.Block.instructions = code.flatMap IR.Block.instructions := by
  rw [complete_eq_ok h, List.flatMap_map]
  exact List.flatMap_congr fun block _ => closeOpen_instructions block

end

/-- A function that lowering makes is in single assignment form. -/
theorem Becomes.singleAssignment {g : IR.Function} (h : Becomes symbols f g) :
    g.SingleAssignment := by
  obtain ⟨_, b, -, hcode, hcomplete⟩ := h.built
  obtain ⟨known, hsup⟩ := supported_code hcode
  have hdistinct : b.Distinct := (extends_code hcode).distinct (by decide) Builder.distinct_start
  -- What a block knows at its start: its own registers, and the slots unless it is the entry.
  have hdefined : ∀ id done r, b.Defined known id done r →
      (known id r ∨ (id ≠ Builder.entry ∧ b.Reserves r)) ∨ r ∈ dests done := by
    rintro id done r (hr | hr | hr)
    · exact .inl (.inl hr)
    · exact .inr hr
    · exact .inl (.inr hr)
  refine IR.Function.singleAssignment_of_availability
    (fun id r => known id r ∨ (id ≠ Builder.entry ∧ b.Reserves r)) ?_ ?_ ?_
  · rw [complete_instructions hcomplete]
    exact hdistinct.nodup
  · rw [h.entry_eq]
    rintro r (hr | ⟨hne, -⟩)
    · exact hsup.entry r hr
    · exact hne rfl
  · intro id block' hblock'
    obtain ⟨block, hblock, hsame, hterm⟩ := complete_block hcomplete hblock'
    refine ⟨?_, ?_, ?_⟩
    · intro done rest i hsplit r hr
      exact hdefined _ _ _ (hsup.instructions id block hblock done i rest (hsame ▸ hsplit) r hr)
    · intro t ht r hr
      rw [hsame]
      rcases hterm with hterm | hterm
      · exact hdefined _ _ _ (hsup.terminators id block hblock t (hterm ▸ ht) r hr)
      · rw [hterm, Option.some.injEq] at ht
        subst ht
        cases hr
    · intro next hnext r hr
      rw [hsame]
      rcases hterm with hterm | hterm
      · have hnext' : next ∈ block.successors := by
          simpa [IR.Block.successors, hterm] using hnext
        rcases hr with hr | ⟨-, hr⟩
        · exact hdefined _ _ _ ((hsup.successors id block hblock next hnext').2 r hr)
        · by_cases hid : id = Builder.entry
          · obtain ⟨_, _, hentry, hmem⟩ := hr
            rw [← hid, hblock, Option.some.injEq] at hentry
            exact .inr (IR.Instruction.mem_dests.mpr ⟨_, hentry ▸ hmem, rfl⟩)
          · exact .inl (.inr ⟨hid, hr⟩)
      · simp [IR.Block.successors, hterm, IR.Terminator.targets] at hnext

end Lowering

/-- Every function of a lowered program is in single assignment form over its control flow. -/
theorem Typed.Program.singleAssignment_lower {p : Typed.Program} {name : String} {m : IR.Module}
    (h : p.lower name = .ok m) {g : IR.Function} (hg : g ∈ m.functions) : g.SingleAssignment := by
  obtain ⟨f, -, hbecomes⟩ := becomes_of_mem_functions h hg
  exact hbecomes.singleAssignment

/-- A program with one function, whose loop has a short-circuit operator in its condition and in
its body: `void spin(bool go) { while (go and go) { go = go or false; } }`. -/
def Typed.Program.spin : Typed.Program :=
  let go : Typed.Expr := .load .bool .nowhere 1
  let no : Typed.Expr := .bool .bool .nowhere false
  let step : Typed.Stmt := .assign go (.binary .bool .nowhere .logicalOr go no) .nowhere
  let body : Typed.Stmt := .whileLoop (.binary .bool .nowhere .logicalAnd go go)
    (.block [step] .nowhere) none .nowhere
  { roots := [⟨"", [.function ⟨0, "spin", .nowhere, [1], none, .block [body] .nowhere, .nowhere⟩]⟩]
    symbols := [
      ⟨"spin", .function, .nowhere, .function ⟨"spin", [], .laye, .void, [("go", .bool)], .none⟩⟩,
      ⟨"go", .binding, .nowhere, .bool⟩] }

theorem Typed.Program.singleAssignment_lower_spin :
    ∃ m g, spin.lower "spin" = .ok m ∧ m.functions = [g] ∧ g.SingleAssignment := by
  have hok : (spin.lower "spin").isOk = true := by decide +kernel
  cases hm : spin.lower "spin" with
  | error fault => simp [hm, Except.isOk, Except.toBool] at hok
  | ok m =>
    obtain ⟨g, hg⟩ : ∃ g, m.functions = [g] :=
      List.length_eq_one_iff.mp (functions_lower hm).length_eq.symm
    exact ⟨m, g, rfl, hg, singleAssignment_lower hm (by simp [hg])⟩

end Laye
