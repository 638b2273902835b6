import Laye.Proofs.Lowering.Modules
import Laye.Proofs.Lowering.Traversal

/-!
# What code is made of

`Lower.Emits I` says of a step of lowering that all instructions it adds satisfy `I`. Most
instructions are made by lowering alone. A call also depends on the expression it comes from: its
callee is the function that the expression names, and it has as many arguments. So if `I` holds of
all instructions but calls, and of the calls that the expressions of a function ask for
(`Typed.Expr.Admits`), it holds of all code of the function: `Lowering.emits_code`.
-/

namespace Laye

variable {I : IR.Instruction → Prop}

/-- All instructions so far satisfy `I`. -/
def Builder.ConsistsOf (I : IR.Instruction → Prop) (b : Builder) : Prop :=
  ∀ block ∈ b.blocks, ∀ i ∈ block.instructions, I i

/-- From code whose instructions satisfy `I`, the step leads to code of this kind. -/
def Lower.Emits (I : IR.Instruction → Prop) {α : Type} (x : Lower α) : Prop :=
  ∀ ⦃b b' : Builder⦄ ⦃a : α⦄, b.ConsistsOf I → x b = .ok (a, b') → b'.ConsistsOf I

namespace Builder.ConsistsOf

variable {b : Builder}

theorem start : Builder.start.ConsistsOf I := by
  intro block hblock i hi
  rw [List.mem_singleton.mp hblock] at hi
  cases hi

theorem update (h : b.ConsistsOf I) (id : IR.BlockId) {f : IR.Block → IR.Block}
    (hf : ∀ block : IR.Block, ∀ i ∈ (f block).instructions, i ∈ block.instructions ∨ I i) :
    (b.update id f).ConsistsOf I := by
  intro block hblock i hi
  obtain ⟨j, hj, rfl⟩ := List.getElem_of_mem hblock
  have hlt : j < b.blocks.length := by simpa [Builder.update] using hj
  simp only [Builder.update, List.getElem_modify] at hi
  have hold := h _ (List.getElem_mem hlt)
  split at hi
  · rcases hf _ i hi with hi | hi
    · exact hold i hi
    · exact hi
  · exact hold i hi

theorem push (h : b.ConsistsOf I) (id : IR.BlockId) {i : IR.Instruction} (hi : I i) :
    (b.update id (·.push i)).ConsistsOf I := by
  refine h.update id fun block j hj => ?_
  rcases List.mem_append.mp hj with hj | hj
  · exact .inl hj
  · exact .inr (List.mem_singleton.mp hj ▸ hi)

theorem close (h : b.ConsistsOf I) (id : IR.BlockId) (t : IR.Terminator) :
    (b.withTerminator id t).ConsistsOf I :=
  h.update id fun _ _ => .inl

theorem withBlock (h : b.ConsistsOf I) (label : String) : (b.withBlock label).ConsistsOf I := by
  intro block hblock i hi
  rcases List.mem_append.mp hblock with hblock | hblock
  · exact h block hblock i hi
  · rw [List.mem_singleton.mp hblock] at hi
    cases hi

end Builder.ConsistsOf

/-! ### Steps -/

namespace Lower.Emits

variable {α β : Type} {x : Lower α}

theorem of_run (f : Builder → α × Builder) (hrun : ∀ b, x b = .ok (f b))
    (hf : ∀ b : Builder, b.ConsistsOf I → (f b).2.ConsistsOf I) : Emits I x := by
  intro b b' a hb h
  rw [hrun, Except.ok.injEq] at h
  have hb' : (f b).2 = b' := congrArg Prod.snd h
  exact hb' ▸ hf b hb

theorem bind_of_run {f : α → Lower β} (hx : Emits I x)
    (hf : ∀ b a b', x b = .ok (a, b') → Emits I (f a)) : Emits I (x >>= f) := by
  intro b b' c hb h
  obtain ⟨a, b1, hrun, h⟩ := bind_eq_ok.mp h
  exact hf b a b1 hrun (hx hb hrun) h

theorem emit {i : IR.Instruction} (h : I i) : Emits I (Lower.emit i) :=
  of_run _ (emit_run i) fun b hb => hb.push b.current h

theorem define {i : IR.Register → IR.Instruction} (h : ∀ r, I (i r)) : Emits I (Lower.define i) :=
  of_run _ (define_run i) fun b hb => Builder.ConsistsOf.push hb b.current (h _)

theorem bindSlot (id : SymbolId) (slot : IR.Register) : Emits I (Lower.bindSlot id slot) :=
  of_run _ (bindSlot_run id slot) fun _ hb => hb

/-- Every form of step emits instructions with `I`, if all but calls have it. -/
theorem uniform (hcode : ∀ i : IR.Instruction, i.isCall = false → I i) : Uniform (Emits I) where
  pure := fun a => of_run (fun b => (a, b)) (fun _ => rfl) fun _ hb => hb
  refuse := fun _ _ _ _ _ _ h => absurd h refuse_ne_ok
  bind := fun hx hf => hx.bind_of_run fun _ a _ _ => hf a
  define := fun hi => define fun r => hcode _ (hi r)
  emit := fun hi => emit (hcode _ hi)
  reserve := fun ty => of_run _ (reserve_run ty) fun _ hb =>
    Builder.ConsistsOf.push hb Builder.entry (hcode _ rfl)
  slotOf? := fun id => of_run _ (slotOf?_run id) fun _ hb => hb
  newBlock := fun label => of_run _ (newBlock_run label) fun _ hb => hb.withBlock label
  currentBlock := of_run _ currentBlock_run fun _ hb => hb
  moveTo := fun id => of_run _ (moveTo_run id) fun _ hb => hb
  isClosed := fun id => of_run _ (isClosed_run id) fun _ hb => hb
  closeBlock := fun id t => of_run (fun b => ((), b.withTerminator id t)) (fun _ => rfl)
    fun _ hb => hb.close id t

end Lower.Emits

/-! ### Code -/

/-- `I` holds of the calls that the expression asks for, if it is a call. -/
def Typed.Expr.Admits (symbols : SymbolTable) (I : IR.Instruction → Prop) : Typed.Expr → Prop
  | .invoke _ _ function args => ∀ dest (values : List IR.Value), values.length = args.length →
      I (.call dest (symbols.symbolAt function).name values)
  | _ => True

theorem Typed.Expr.length_lowerAll {symbols : SymbolTable} {es : List Expr} {b b' : Builder}
    {values : List IR.Value} (h : lowerAll symbols es b = .ok (values, b')) :
    values.length = es.length := by
  induction es generalizing b values with
  | nil =>
    cases Lower.pure_eq_ok.mp h
    rfl
  | cons e _ ih =>
    obtain ⟨_, _, -, h⟩ := Lower.bind_eq_ok.mp h
    obtain ⟨_, _, -, h⟩ := Lower.bind_eq_ok.mp h
    obtain ⟨_, _, hrest, h⟩ := Lower.bind_eq_ok.mp h
    cases Lower.pure_eq_ok.mp h
    rw [List.length_cons, List.length_cons, ih hrest]

section

open Lower (Emits)

variable {symbols : SymbolTable} (hcode : ∀ i : IR.Instruction, i.isCall = false → I i)
include hcode

theorem Typed.Expr.Admits.keepsCall {e : Typed.Expr} (h : e.Admits symbols I) :
    e.KeepsCall (Emits I) symbols := by
  have hpure := (Emits.uniform hcode).pure (α := Operand)
  cases e with
  | invoke _ _ _ _ =>
    intro hargs
    refine hargs.bind_of_run fun _ values _ hrun => ?_
    have hcall := fun dest => h dest values (length_lowerAll hrun)
    unfold Lowering.call
    split
    · exact (Emits.emit (hcall none)).bind_of_run fun _ _ _ _ => hpure _
    · exact (Emits.define fun r => hcall (some r)).bind_of_run fun _ _ _ _ => hpure _
  | _ => trivial

/-- An expression of admitted nodes emits only instructions with `I`. -/
theorem Typed.Expr.emits_lower {e : Typed.Expr} (h : ∀ n ∈ e.nodes, n.Admits symbols I) :
    Emits I (e.lower symbols) :=
  (Emits.uniform hcode).plain.lower symbols e fun n hn => (h n hn).keepsCall hcode

namespace Lowering

theorem emits_binding {id : SymbolId} {value : Option Typed.Expr}
    (h : ∀ e ∈ value, Emits I (e.lower symbols)) : Emits I (binding symbols id value) := by
  have huniform := Emits.uniform hcode
  refine huniform.bind (huniform.reserve _) fun slot =>
    huniform.bind (huniform.plain.optional h) fun initial => ?_
  cases initial with
  | none => exact .bindSlot _ _
  | some v => exact huniform.bind (huniform.emit rfl) fun _ => .bindSlot _ _

theorem emits_params (next : Nat) (ids : List SymbolId) : Emits I (params symbols next ids) := by
  have huniform := Emits.uniform hcode
  induction ids generalizing next with
  | nil => exact huniform.pure _
  | cons _ _ ih =>
    exact huniform.bind (huniform.reserve _) fun _ => huniform.bind (huniform.emit rfl) fun _ =>
      huniform.bind (.bindSlot _ _) fun _ => ih _

variable {f : Typed.Function}

theorem emits_code (h : ∀ e ∈ f.body.exprs, e.Admits symbols I) (returnsVoid : Bool) :
    Emits I (code symbols returnsVoid f) := by
  have huniform := Emits.uniform hcode
  refine huniform.bind (emits_params hcode 0 f.params) fun _ => ?_
  generalize f.body = body at h
  refine huniform.body returnsVoid (fun s hs => ?_) ?_
  · have hoperands : ∀ e ∈ s.operands, Emits I (e.lower symbols) := fun e he =>
      Typed.Expr.emits_lower hcode fun n hn => h n (Typed.Body.mem_exprs_of_mem_stmts hs he hn)
    refine ⟨hoperands, ?_⟩
    rintro id value span rfl
    exact emits_binding hcode fun e he => hoperands e (Option.mem_toList.mpr he)
  · rintro e rfl
    exact Typed.Expr.emits_lower hcode h

/-- All instructions of a function with admitted calls have `I`. -/
theorem Defines.forall_instructions {signature : Signature} {g : IR.Function}
    (hdefines : Defines symbols f signature g) (h : ∀ e ∈ f.body.exprs, e.Admits symbols I) :
    ∀ block ∈ g.blocks, ∀ i ∈ block.instructions, I i := by
  obtain ⟨b, hrun, hcomplete⟩ := blocks_eq_ok hdefines.blocks_eq
  have hb := emits_code hcode h _ .start hrun
  intro block hblock
  unfold complete at hcomplete
  split at hcomplete
  · rw [← Except.ok.inj hcomplete] at hblock
    obtain ⟨old, hold, rfl⟩ := List.mem_map.mp hblock
    have hsame : (closeOpen old).instructions = old.instructions := by
      unfold closeOpen
      split <;> rfl
    rw [hsame]
    exact hb old hold
  · split at hcomplete
    · rw [← Except.ok.inj hcomplete] at hblock
      exact hb block hblock
    · cases hcomplete

end Lowering

end

end Laye
