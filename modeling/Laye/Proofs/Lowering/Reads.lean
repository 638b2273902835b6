import Laye.Proofs.Lowering.Supported

/-!
# Lowering reads only registers that are known

`Lower.Reads` says of a step of lowering that it only reads registers that are known where it
stands, and which registers of its result are known after it. `Lower.ReadsWithin` says the same of a
step that may end the current block and jump out of a loop.

The steps are put together as the code puts them together. `Typed.Expr.reads_lower` and
`Typed.Stmt.reads_lower` follow by induction on the typed tree.
-/

namespace Laye

namespace Builder

open IR (Availability)

/-- `b'` comes after `b` and its code is supported. The blocks of `b` start with the same registers
known as before, and what was known in `b` is still known if control gets to the end of `b'`. -/
structure Later (b : Builder) (known : Availability) (b' : Builder) (known' : Availability) :
    Prop where
  supported : b'.Supported known'
  length_le : b.blocks.length ≤ b'.blocks.length
  current_lt : b'.current < b'.blocks.length
  agrees : ∀ id, id < b.blocks.length → known' id = known id
  keeps : b'.IsOpen → ∀ r, b.Knows known r → b'.Knows known' r

namespace Later

variable {b b' b'' : Builder} {known known' known'' : Availability}

theorem trans (h : b.Later known b' known') (hopen : b'.IsOpen)
    (h' : b'.Later known' b'' known'') : b.Later known b'' known'' where
  supported := h'.supported
  length_le := Nat.le_trans h.length_le h'.length_le
  current_lt := h'.current_lt
  agrees id hid := (h'.agrees id (Nat.lt_of_lt_of_le hid h.length_le)).trans (h.agrees id hid)
  keeps hopen' r hr := h'.keeps hopen' r (h.keeps hopen r hr)

theorem of_extends (hopen : b.IsOpen) (hext : b.Extends b') (hcurrent : b'.current = b.current)
    (hsupported : b'.Supported known) : b.Later known b' known where
  supported := hsupported
  length_le := hext.length_le
  current_lt := hext.current_lt hopen.lt
  agrees _ _ := rfl
  keeps _ r hr := by
    rw [Knows, hcurrent]
    exact KnowsAt.mono hr hext rfl

section

variable (hopen : b.IsOpen) (h : b.Supported known)
include hopen h

theorem refl : b.Later known b known :=
  of_extends hopen (.refl b) rfl h

theorem slot (ty : IR.Ty) : b.Later known (b.withSlot ty) known := by
  have hext := (Extends.refl b).slot ty
  refine of_extends hopen hext rfl (h.push hext rfl rfl ?_)
  simp [IR.Instruction.uses, IR.Instruction.operands]

theorem definition {i : IR.Register → IR.Instruction}
    (hdest : ∀ r, (i r).dest? = some r) (hcode : ∀ r, (i r).isAlloca = false)
    (huses : ∀ r ∈ (i b.nextRegister).uses, b.Knows known r) :
    b.Later known (b.withDefinition i) known := by
  have hext := (Extends.refl b).definition hopen hdest hcode
  exact of_extends hopen hext rfl (h.push hext rfl rfl huses)

theorem instruction {i : IR.Instruction}
    (hdest : i.dest? = none) (huses : ∀ r ∈ i.uses, b.Knows known r) :
    b.Later known (b.withInstruction i) known := by
  have hext := (Extends.refl b).instruction hopen hdest
  exact of_extends hopen hext rfl (h.push hext rfl rfl huses)

theorem store {slot : IR.Register} {v : IR.Value} (hslot : b.Knows known slot)
    (hv : ∀ r, v.register? = some r → b.Knows known r) :
    b.Later known (b.withInstruction (.store (.register slot) v)) known := by
  refine instruction hopen h rfl fun r hr => ?_
  rcases IR.Instruction.mem_uses_store.mp hr with hr | hr
  · exact Option.some.inj hr ▸ hslot
  · exact hv r hr

end

variable {next : IR.BlockId}

theorem move (h : b.Later known b' known') (hlt : next < b'.blocks.length)
    (hnext : known' next = b.Knows known) : b.Later known (b'.movedTo next) known' where
  supported := h.supported.movedTo next
  length_le := h.length_le
  current_lt := hlt
  agrees := h.agrees
  keeps _ r hr := knowsAt_of_known hlt (by rw [movedTo_current, hnext]; exact hr)

theorem close {t : IR.Terminator} (h : b.Later known b' known')
    (huses : ∀ r ∈ t.uses, b'.Knows known' r)
    (htargets : ∀ target ∈ t.targets,
      target < b'.blocks.length ∧ ∀ r, known' target r → b'.Knows known' r) :
    b.Later known (b'.withTerminator b'.current t) known' where
  supported := h.supported.terminator huses htargets
  length_le := by simpa using h.length_le
  current_lt := by simpa using h.current_lt
  agrees := h.agrees
  keeps hopen := absurd hopen (b'.not_openAt_withTerminator b'.current t)

/-- Going on from the current block to a block that starts with what was known in `b`, and adding
code to another such block. -/
theorem fall {target : IR.BlockId} (h : b.Later known b' known')
    (htarget : target < b'.blocks.length) (hstart : known' target = b.Knows known)
    (hlt : next < b'.blocks.length) (hnext : known' next = b.Knows known) :
    b.Later known ((b'.fallingFrom b'.current target).movedTo next) known' where
  supported := by
    refine Supported.movedTo (h.supported.fallingFrom h.current_lt htarget ?_) next
    intro hopen r hr
    exact h.keeps hopen r (hstart ▸ hr)
  length_le := by simpa using h.length_le
  current_lt := by simpa using hlt
  agrees := h.agrees
  keeps _ r hr := knowsAt_of_known (by simpa using hlt) (by rw [movedTo_current, hnext]; exact hr)

theorem joined {thenExit : IR.BlockId} (h : b.Later known b' known')
    (hthen : thenExit < b'.blocks.length)
    (hknows : b'.OpenAt thenExit → ∀ r, b.Knows known r → b'.KnowsAt known' thenExit r) :
    ∃ known'', b.Later known (b'.joined thenExit b'.current) known'' := by
  by_cases hclosed : b'.isClosed thenExit && b'.isClosed b'.current
  · rw [Builder.joined, if_pos hclosed]
    exact ⟨known', h⟩
  · obtain ⟨known'', hsup, hsame, hstart⟩ := h.supported.joined (b.Knows known) hthen h.current_lt
      hknows h.keeps hclosed
    have hlength : (b'.joined thenExit b'.current).blocks.length = b'.blocks.length + 1 := by
      rw [Builder.joined, if_neg hclosed]
      simp
    have hcurrent : (b'.joined thenExit b'.current).current = b'.blocks.length := by
      rw [Builder.joined, if_neg hclosed]
      simp
    have hlt : (b'.joined thenExit b'.current).current <
        (b'.joined thenExit b'.current).blocks.length := by
      rw [hlength, hcurrent]
      exact Nat.lt_succ_self _
    refine ⟨known'', hsup, ?_, hlt, ?_, ?_⟩
    · rw [hlength]
      exact Nat.le_succ_of_le h.length_le
    · intro id hid
      exact (hsame id (Nat.lt_of_lt_of_le hid h.length_le)).trans (h.agrees id hid)
    · intro _ r hr
      exact knowsAt_of_known hlt (by rw [hstart]; exact hr)

end Later

theorem later_fork {b : Builder} {known : Availability} {t : IR.Terminator} (hopen : b.IsOpen)
    (h : b.Supported known) (labels : String × String) (huses : ∀ r ∈ t.uses, b.Knows known r)
    (htargets : t.targets ⊆ [b.blocks.length, b.blocks.length + 1]) :
    ∃ known', b.Later known (b.fork labels t) known' ∧ known' b.blocks.length = b.Knows known ∧
      known' (b.blocks.length + 1) = b.Knows known := by
  obtain ⟨known', hsup, hsame, hfirst, hsecond⟩ := h.fork hopen labels huses htargets
  have hlt : (b.fork labels t).current < (b.fork labels t).blocks.length :=
    (isOpen_fork hopen labels t).lt
  refine ⟨known', ⟨hsup, by simp, hlt, hsame, ?_⟩, hfirst, hsecond⟩
  intro _ r hr
  exact knowsAt_of_known hlt (by rw [fork_current, hfirst]; exact hr)

end Builder

/-- The register that an operand is read from, if it is one. -/
def Operand.register? : Operand → Option IR.Register
  | .value v | .place v => v.register?

/-- The value is in the register. -/
abbrev IR.Value.IsIn (v : IR.Value) (r : IR.Register) : Prop := v.register? = some r

/-- The operand is read from the register. -/
abbrev Operand.IsIn (op : Operand) (r : IR.Register) : Prop := op.register? = some r

namespace Lower

open IR (Availability)

/-- The step only reads what is known, where the registers in `needs` are known before it. It leaves
the current block open, and the registers in `gives` of its result are known there. -/
def Reads {α : Type} (needs : IR.Register → Prop) (x : Lower α) (gives : α → IR.Register → Prop) :
    Prop :=
  ∀ ⦃b : Builder⦄ ⦃a : α⦄ ⦃b' : Builder⦄ ⦃known : Availability⦄, b.IsOpen → b.Supported known →
    (∀ r, needs r → b.Knows known r) → x b = .ok (a, b') →
    ∃ known', b.Later known b' known' ∧ b'.IsOpen ∧ ∀ r, gives a r → b'.Knows known' r

namespace Reads

variable {α β : Type} {needs : IR.Register → Prop}

variable {gives : α → IR.Register → Prop} {i : IR.Register → IR.Instruction} {target : Typed.Expr}
  {lowered : Lower Operand}

theorem pure {a : α} (hgives : ∀ r, gives a r → needs r) :
    Reads needs (Pure.pure a : Lower α) gives := by
  intro b a' b' known hopen hsup hneeds h
  obtain ⟨rfl, rfl⟩ := h
  exact ⟨known, .refl hopen hsup, hopen, fun r hr => hneeds r (hgives r hr)⟩

theorem bind {x : Lower α} {f : α → Lower β} {gives' : β → IR.Register → Prop}
    (hx : Reads needs x gives) (hf : ∀ a, Reads (fun r => needs r ∨ gives a r) (f a) gives') :
    Reads needs (x >>= f) gives' := by
  intro b c b'' known hopen hsup hneeds h
  obtain ⟨a, b', hrun, hrest⟩ := bind_eq_ok.mp h
  obtain ⟨known', hlater, hopen', hgives⟩ := hx hopen hsup hneeds hrun
  have hneeds' : ∀ r, needs r ∨ gives a r → b'.Knows known' r := by
    rintro r (hr | hr)
    · exact hlater.keeps hopen' r (hneeds r hr)
    · exact hgives r hr
  obtain ⟨known'', hlater', hopen'', hgives'⟩ := hf a hopen' hlater.supported hneeds' hrest
  exact ⟨known'', hlater.trans hopen' hlater', hopen'', hgives'⟩

theorem weaken {needs' : IR.Register → Prop} {x : Lower α} (h : Reads needs x gives)
    (hneeds : ∀ r, needs r → needs' r) : Reads needs' x gives :=
  fun _ _ _ _ hopen hsup hneeds' hrun => h hopen hsup (fun r hr => hneeds' r (hneeds r hr)) hrun

theorem refuse (span : Span) (problem : Problem) (gives : α → IR.Register → Prop) :
    Reads needs (Lower.refuse span problem : Lower α) gives :=
  fun _ _ _ _ _ _ _ h => absurd h refuse_ne_ok

/-! ### Single instructions -/

theorem define (hdest : ∀ r, (i r).dest? = some r) (hcode : ∀ r, (i r).isAlloca = false)
    (huses : ∀ dest, ∀ v ∈ (i dest).operands, ∀ r, v.IsIn r → needs r) :
    Reads needs (Lower.define i) IR.Value.IsIn := by
  intro b v _ known hopen hsup hneeds h
  obtain ⟨rfl, rfl⟩ := h
  refine ⟨known, .definition hopen hsup hdest hcode ?_, hopen.withDefinition i, ?_⟩
  · intro r hr
    obtain ⟨v, hv, hreg⟩ := List.mem_filterMap.mp hr
    exact hneeds r (huses _ v hv r hreg)
  · intro r hr
    exact Option.some.inj hr ▸ Builder.knows_withDefinition hopen hdest known

theorem emit {i : IR.Instruction} (hdest : i.dest? = none)
    (huses : ∀ v ∈ i.operands, ∀ r, v.IsIn r → needs r) :
    Reads needs (Lower.emit i) fun _ _ => False := by
  intro b u _ known hopen hsup hneeds h
  obtain ⟨-, rfl⟩ := h
  refine ⟨known, .instruction hopen hsup hdest ?_, hopen.withInstruction i, ?_⟩
  · intro r hr
    obtain ⟨v, hv, hreg⟩ := List.mem_filterMap.mp hr
    exact hneeds r (huses v hv r hreg)
  · intro r hr
    exact hr.elim

theorem reserve (ty : IR.Ty) : Reads needs (Lower.reserve ty) fun slot r => slot = r := by
  intro b slot _ known hopen hsup _ h
  obtain ⟨rfl, rfl⟩ := h
  refine ⟨known, .slot hopen hsup ty, hopen.withSlot ty, ?_⟩
  rintro r rfl
  exact Builder.knows_withSlot hopen ty known

/-! ### Expressions -/

theorem load {op : Operand} (ty : Ty) (hop : ∀ r, op.IsIn r → needs r) :
    Reads needs (op.load ty) IR.Value.IsIn := by
  cases op with
  | value v => exact pure hop
  | place _ => exact define (fun _ => rfl) (fun _ => rfl) (by simpa [IR.Instruction.operands])

theorem address {op : Operand} (ty : Ty) (hop : ∀ r, op.IsIn r → needs r) :
    Reads needs (op.address ty) IR.Value.IsIn := by
  cases op with
  | place _ => exact pure hop
  | value v =>
    refine (reserve _).bind fun slot => (emit rfl ?_).bind fun _ => pure ?_
    · intro w hw r hr
      simp only [IR.Instruction.operands, List.mem_cons, List.not_mem_nil, or_false] at hw
      rcases hw with rfl | rfl
      · exact .inr (Option.some.inj hr)
      · exact .inl (hop r hr)
    · exact fun r hr => .inl (.inr (Option.some.inj hr))

theorem computed (hdest : ∀ r, (i r).dest? = some r) (hcode : ∀ r, (i r).isAlloca = false)
    (huses : ∀ dest, ∀ v ∈ (i dest).operands, ∀ r, v.IsIn r → needs r) :
    Reads needs (Lowering.computed i) Operand.IsIn :=
  (define hdest hcode huses).bind fun _ => pure fun _ hr => .inr hr

theorem constant (c : IR.Constant) :
    Reads needs (Lowering.constant c) Operand.IsIn :=
  pure fun _ hr => nomatch hr

theorem symbol (symbols : SymbolTable) (id : SymbolId) (span : Span) :
    Reads needs (Lowering.symbol symbols id span) Operand.IsIn := by
  intro b op b' known hopen hsup hneeds h
  obtain ⟨rfl, hop⟩ := Lowering.symbol_stages h
  refine ⟨known, .refl hopen hsup, hopen, ?_⟩
  intro r hr
  rcases hop with ⟨slot, hslot, rfl⟩ | ⟨-, -, rfl⟩
  · have hmem : (id, slot) ∈ b'.slots := by
      obtain ⟨_, _, hslots, -⟩ := List.lookup_eq_some_iff.mp hslot
      simp [hslots]
    exact Option.some.inj hr ▸ (hsup.slots id slot hmem).knows hopen.lt known
  · cases hr

theorem call (name : String) (ty : Ty) {args : List IR.Value}
    (hargs : ∀ v ∈ args, ∀ r, v.IsIn r → needs r) :
    Reads needs (Lowering.call name ty args) Operand.IsIn := by
  unfold Lowering.call
  split
  · have hcall : Reads needs (Lower.emit (.call none name args)) fun _ _ => False := emit rfl hargs
    exact hcall.bind fun _ => pure fun _ hr => nomatch hr
  · exact computed (fun _ => rfl) (fun _ => rfl) fun _ => hargs

theorem shortCircuit {isAnd : Bool} {left right : Lower IR.Value} (hadvances : Advances right)
    (hleft : Reads needs left IR.Value.IsIn)
    (hright : Reads needs right IR.Value.IsIn) :
    Reads needs (Lowering.shortCircuit isAnd left right) Operand.IsIn := by
  intro b op b' known hopen hsup hneeds h
  obtain ⟨lhs, b1, rhs, b2, _, hrun, hrun', rfl, rfl, rfl⟩ := Lowering.shortCircuit_stages h
  have hlater0 : b.Later known (b.withSlot .bool) known := .slot hopen hsup .bool
  have hopen0 : (b.withSlot .bool).IsOpen := hopen.withSlot .bool
  have hneeds0 : ∀ r, needs r → (b.withSlot .bool).Knows known r := fun r hr =>
    hlater0.keeps hopen0 r (hneeds r hr)
  have hslot0 : (b.withSlot .bool).Knows known b.nextRegister :=
    Builder.knows_withSlot hopen .bool known
  -- The left operand is stored, and the code forks.
  obtain ⟨known1, hlater1, hopen1, hlhs⟩ := hleft hopen0 hlater0.supported hneeds0 hrun
  have hslot1 : b1.Knows known1 b.nextRegister := hlater1.keeps hopen1 _ hslot0
  have hstore := Builder.Later.store hopen1 hlater1.supported hslot1 hlhs
  have hopenS := hopen1.withInstruction (.store (.register b.nextRegister) lhs)
  have hbranch : ∀ r ∈ (b1.circuitBranch isAnd lhs).uses, lhs.register? = some r := by
    cases isAnd <;> simp [Builder.circuitBranch, IR.Terminator.uses, IR.Terminator.operands]
  obtain ⟨known2, hfork, -, hend⟩ := Builder.later_fork hopenS hstore.supported
    (Lowering.circuitLabels isAnd) (t := b1.circuitBranch isAnd lhs)
    (fun r hr => hstore.keeps hopenS r (hlhs r (hbranch r hr)))
    (by cases isAnd <;> simp [Builder.circuitBranch, IR.Terminator.targets])
  have hopen2 : (b1.enterCircuit isAnd b.nextRegister lhs).IsOpen :=
    Builder.isOpen_enterCircuit hopen1
  have hkeeps2 : ∀ r, b1.Knows known1 r →
      (b1.enterCircuit isAnd b.nextRegister lhs).Knows known2 r :=
    (hstore.trans hopenS hfork).keeps hopen2
  -- The right operand is stored, and both ways meet in a block that knows what was known there.
  obtain ⟨known3, hlater3, hopen3, hrhs⟩ := hright hopen2 hfork.supported
    (fun r hr => hkeeps2 r (hlater1.keeps hopen1 r (hneeds0 r hr))) hrun'
  have hslot3 : b2.Knows known3 b.nextRegister := hlater3.keeps hopen3 _ (hkeeps2 _ hslot1)
  have hstore' := Builder.Later.store hopen3 hlater3.supported hslot3 hrhs
  have hlt : b1.blocks.length + 1 < (b1.enterCircuit isAnd b.nextRegister lhs).blocks.length :=
    (Builder.openAt_enterCircuit hopen1).lt
  have hmeet : (b1.withInstruction (.store (.register b.nextRegister) lhs)).Later known1
      (b2.leaveCircuit b.nextRegister rhs (b1.blocks.length + 1)) known3 := by
    have hend3 := (hlater3.agrees _ hlt).trans (by simpa using hend)
    have hlt3 : b1.blocks.length + 1 <
        (b2.withInstruction (.store (.register b.nextRegister) rhs)).blocks.length := by
      simpa using Nat.lt_of_lt_of_le hlt hlater3.length_le
    exact ((hfork.trans hopen2 hlater3).trans hopen3 hstore').fall hlt3 hend3 hlt3 hend3
  have hopen4 : (b2.leaveCircuit b.nextRegister rhs (b1.blocks.length + 1)).IsOpen :=
    Builder.isOpen_leaveCircuit hopen1 (hadvances hopen2 hrun').1
  have hlater4 := (hlater0.trans hopen0 hlater1).trans hopen1 (hstore.trans hopenS hmeet)
  have hload : (b2.leaveCircuit b.nextRegister rhs (b1.blocks.length + 1)).Later known3 _ known3 :=
    .definition (i := fun dest => .load dest (.register b.nextRegister) .bool) hopen4
      hmeet.supported
      (fun _ => rfl) (fun _ => rfl) fun r hr => by
        have heq : r = b.nextRegister := by
          simpa [IR.Instruction.uses, IR.Instruction.operands, IR.Value.register?] using hr
        exact heq ▸ (hstore.trans hopenS hmeet).keeps hopen4 _ hslot1
  refine ⟨known3, hlater4.trans hopen4 hload, hopen4.withDefinition _, fun r hr => ?_⟩
  exact Option.some.inj hr ▸ Builder.knows_withDefinition hopen4 (fun _ => rfl) known3

theorem loaded (h : Reads needs lowered Operand.IsIn) (ty : Ty) :
    Reads needs (do (← lowered).load ty) IR.Value.IsIn :=
  h.bind fun _ => load _ fun _ hr => .inr hr

theorem bindLoad {ty : Ty} {f : IR.Value → Lower α} (h : Reads needs lowered Operand.IsIn)
    (hf : ∀ v, Reads (fun r => needs r ∨ v.IsIn r) (f v) gives) :
    Reads needs (do f (← (← lowered).load ty)) gives := by
  rw [← bind_assoc]
  exact (h.loaded ty).bind hf

theorem bindAddress {ty : Ty} {f : IR.Value → Lower α} (h : Reads needs lowered Operand.IsIn)
    (hf : ∀ v, Reads (fun r => needs r ∨ v.IsIn r) (f v) gives) :
    Reads needs (do f (← (← lowered).address ty)) gives := by
  rw [← bind_assoc]
  exact (h.bind fun _ => address ty fun _ hr => .inr hr).bind hf

theorem elements (h : Reads needs lowered Operand.IsIn) :
    Reads needs (Lowering.elements target lowered) IR.Value.IsIn := by
  unfold Lowering.elements
  cases target.ty with
  | array => exact h.bind fun _ => address _ fun _ hr => .inr hr
  | pointer | buffer | rawptr => exact h.loaded _
  | slice | string =>
    exact h.bindLoad fun v => define (fun _ => rfl) (fun _ => rfl) fun _ w hw r hr =>
      .inr (List.mem_singleton.mp hw ▸ hr)
  | _ => exact refuse _ _ _

theorem element {ty : Ty} {base index : Lower IR.Value}
    (hbase : Reads needs base IR.Value.IsIn)
    (hindex : Reads needs index IR.Value.IsIn) :
    Reads needs (Lowering.element ty base index) Operand.IsIn := by
  refine hbase.bind fun base => (hindex.weaken fun _ => .inl).bind fun index =>
    (define (fun _ => rfl) (fun _ => rfl) ?_).bind fun _ => pure fun _ hr => .inr hr
  intro dest v hv r hr
  simp only [IR.Instruction.operands, List.mem_cons, List.not_mem_nil, or_false] at hv
  rcases hv with rfl | rfl
  · exact .inl (.inr hr)
  · exact .inr hr

theorem field (place : Nat) (h : Reads needs lowered Operand.IsIn) :
    Reads needs (Lowering.field target lowered place) Operand.IsIn := by
  unfold Lowering.field
  split
  · exact h.bindAddress fun v => (define (fun _ => rfl) (fun _ => rfl) fun _ w hw r hr =>
      .inr (List.mem_singleton.mp hw ▸ hr)).bind fun _ => pure fun _ hr => .inr hr
  · exact refuse _ _ _

end Reads

end Lower

namespace Typed.Expr

mutual

/-- The code of an expression only reads registers that are known. -/
theorem reads_lower (symbols : SymbolTable) (needs : IR.Register → Prop) : (e : Expr) →
    Lower.Reads needs (e.lower symbols) Operand.IsIn
  | .integer _ _ _ _ | .float _ _ _ | .bool _ _ _ | .string _ _ _ => .constant _
  | .load _ _ _ => .symbol _ _ _
  | .cast _ _ inner | .materialize _ _ inner | .unary _ _ _ inner =>
    (reads_lower symbols _ inner).bindLoad fun _ =>
      .computed (fun _ => rfl) (fun _ => rfl) fun _ w hw r hr =>
        .inr (List.mem_singleton.mp hw ▸ hr)
  | .invoke _ _ _ args =>
    (reads_lowerAll symbols _ args).bind fun _ => .call _ _ fun v hv r hr =>
      .inr ⟨v, hv, hr⟩
  | .binary _ _ op left right => by
    unfold lower
    split
    · exact .shortCircuit (Lower.Advances.closed.lowerValue symbols right)
        ((reads_lower symbols _ left).loaded _) ((reads_lower symbols _ right).loaded _)
    · refine (reads_lower symbols _ left).bindLoad fun lhs =>
        (reads_lower symbols _ right).bindLoad fun rhs =>
          .computed (fun _ => rfl) (fun _ => rfl) ?_
      intro dest v hv r hr
      simp only [IR.Instruction.operands, List.mem_cons, List.not_mem_nil, or_false] at hv
      rcases hv with rfl | rfl
      · exact .inl (.inr hr)
      · exact .inr hr
  | .addressOf _ _ inner =>
    (reads_lower symbols _ inner).bindAddress fun _ => .pure fun _ hr => .inr hr
  | .dereference _ _ inner =>
    (reads_lower symbols _ inner).bindLoad fun _ => .pure fun _ hr => .inr hr
  | .index _ _ target i =>
    .element (.elements (reads_lower symbols _ target)) ((reads_lower symbols _ i).loaded _)
  | .field _ _ target _ place => .field place (reads_lower symbols _ target)

theorem reads_lowerAll (symbols : SymbolTable) (needs : IR.Register → Prop) :
    (es : List Expr) → Lower.Reads needs (lowerAll symbols es)
      fun vs r => ∃ v ∈ vs, v.IsIn r
  | [] => .pure (by simp)
  | e :: es => by
    refine (reads_lower symbols _ e).bindLoad fun v =>
      (reads_lowerAll symbols _ es).bind fun vs => .pure ?_
    rintro r ⟨w, hw, hr⟩
    rcases List.mem_cons.mp hw with rfl | hw
    · exact .inl (.inr hr)
    · exact .inr ⟨w, hw, hr⟩

end

theorem reads_lowerValue (symbols : SymbolTable) (needs : IR.Register → Prop) (e : Expr) :
    Lower.Reads needs (e.lowerValue symbols) IR.Value.IsIn :=
  (reads_lower symbols _ e).loaded _

theorem reads_lowerAddress (symbols : SymbolTable) (needs : IR.Register → Prop) (e : Expr) :
    Lower.Reads needs (e.lowerAddress symbols) IR.Value.IsIn :=
  (reads_lower symbols _ e).bind fun _ => .address _ fun _ hr => .inr hr

end Typed.Expr

theorem Lower.Reads.optionalValue (symbols : SymbolTable) (needs : IR.Register → Prop)
    (value : Option Typed.Expr) : Reads needs (Lowering.optionalValue symbols value)
      fun o r => ∃ v, o = some v ∧ v.IsIn r := by
  cases value with
  | none => exact .pure (by simp)
  | some e =>
    refine (e.reads_lowerValue symbols needs).bind fun v => .pure ?_
    rintro r ⟨w, hw, hr⟩
    cases hw
    exact .inr hr

/-! ### Statements -/

namespace Builder

open IR (Availability)

variable {b b' : Builder} {known known' : Availability} {loop : Option LoopTargets}

/-- What the targets of the loop around the code start with is known here. -/
structure Feeds (b : Builder) (known : Availability) (loop : Option LoopTargets) : Prop where
  admits : b.Admits loop
  continueTarget : ∀ targets, loop = some targets →
    ∀ r, known targets.continueTarget r → b.Knows known r
  breakTarget : ∀ targets, loop = some targets →
    ∀ r, known targets.breakTarget r → b.Knows known r

theorem feeds_none (b : Builder) (known : Availability) : b.Feeds known none :=
  ⟨b.admits_none, fun _ h => (Option.some_ne_none _ h.symm).elim,
    fun _ h => (Option.some_ne_none _ h.symm).elim⟩

theorem Feeds.later (h : b.Feeds known loop) (hlater : b.Later known b' known')
    (hopen : b'.IsOpen) : b'.Feeds known' loop where
  admits := h.admits.mono hlater.length_le
  continueTarget targets htargets r hr := by
    rw [hlater.agrees _ (h.admits targets htargets).1.1] at hr
    exact hlater.keeps hopen r (h.continueTarget targets htargets r hr)
  breakTarget targets htargets r hr := by
    rw [hlater.agrees _ (h.admits targets htargets).2.1] at hr
    exact hlater.keeps hopen r (h.breakTarget targets htargets r hr)

end Builder

namespace Lower

open IR (Availability)

/-- The step only reads what is known, inside the given loop. -/
def ReadsWithin (loop : Option LoopTargets) (x : Lower Unit) : Prop :=
  ∀ ⦃b b' : Builder⦄ ⦃known : Availability⦄, b.IsOpen → b.Supported known → b.Feeds known loop →
    x b = .ok ((), b') → ∃ known', b.Later known b' known'

namespace ReadsWithin

variable {α : Type} {loop : Option LoopTargets}

theorem of_reads {x : Lower Unit} (h : Reads (fun _ => False) x fun _ _ => False) :
    ReadsWithin loop x := by
  intro b b' known hopen hsup _ hrun
  obtain ⟨known', hlater, -, -⟩ := h hopen hsup (fun _ hr => hr.elim) hrun
  exact ⟨known', hlater⟩

theorem refuse (span : Span) (problem : Problem) :
    ReadsWithin loop (Lower.refuse span problem : Lower Unit) :=
  fun _ _ _ _ _ _ h => absurd h refuse_ne_ok

theorem loopJump {target : LoopTargets → IR.BlockId} {span : Span}
    (htarget : ∀ t, target t = t.continueTarget ∨ target t = t.breakTarget) :
    ReadsWithin loop (Lowering.loopJump loop target span) := by
  cases loop with
  | none => exact refuse _ _
  | some targets =>
    intro b _ known hopen hsup hfeeds h
    obtain ⟨-, rfl⟩ := h
    refine ⟨known, (Builder.Later.refl hopen hsup).close ?_ ?_⟩
    · simp [IR.Terminator.uses, IR.Terminator.operands]
    · intro next hnext
      rw [List.mem_singleton.mp hnext]
      rcases htarget targets with heq | heq
      · exact heq ▸ ⟨(hfeeds.admits targets rfl).1.1, hfeeds.continueTarget targets rfl⟩
      · exact heq ▸ ⟨(hfeeds.admits targets rfl).2.1, hfeeds.breakTarget targets rfl⟩

theorem ret {x : Lower α} {f : α → Option IR.Value}
    (hx : Reads (fun _ => False) x fun a r => ∃ v, f a = some v ∧ v.IsIn r) :
    ReadsWithin loop (do Lower.close (.ret (f (← x)))) := by
  intro b b' known hopen hsup _ h
  obtain ⟨a, _, hrun, hclose⟩ := bind_eq_ok.mp h
  obtain ⟨-, rfl⟩ := hclose
  obtain ⟨known1, hlater, hopen1, hgives⟩ := hx hopen hsup (fun _ hr => hr.elim) hrun
  refine ⟨known1, hlater.close ?_ ?_⟩
  · intro r hr
    cases hf : f a with
    | none => simp [hf, IR.Terminator.uses, IR.Terminator.operands] at hr
    | some v =>
      refine hgives r ⟨v, hf, ?_⟩
      simpa [hf, IR.Terminator.uses, IR.Terminator.operands] using hr
  · simp [IR.Terminator.targets]

theorem binding (symbols : SymbolTable) (symbol : SymbolId) (value : Option Typed.Expr) :
    ReadsWithin loop (Lowering.binding symbols symbol value) := by
  intro b b' known hopen hsup _ h
  obtain ⟨initial, b1, hvalue, rfl⟩ := Lowering.binding_stages h
  have hlater0 := Builder.Later.slot hopen hsup (symbols.symbolAt symbol).ty.shape
  have hopen0 := hopen.withSlot (symbols.symbolAt symbol).ty.shape
  obtain ⟨known1, hlater1, hopen1, hinitial⟩ := Reads.optionalValue symbols (fun _ => False) value
    hopen0 hlater0.supported (fun _ hr => hr.elim) hvalue
  have hslot1 : b1.Knows known1 b.nextRegister :=
    hlater1.keeps hopen1 _ (Builder.knows_withSlot hopen _ known)
  have hreserves : b1.Reserves b.nextRegister :=
    (Advances.closed.optionalValue symbols value hopen0 hvalue).1.reserves
      (Builder.reserves_withSlot (Nat.lt_of_le_of_lt (Nat.zero_le _) hopen.lt) _)
  have hinit : b1.Later known1 (b1.withInitial b.nextRegister initial) known1 ∧
      (b1.withInitial b.nextRegister initial).IsOpen ∧
      (b1.withInitial b.nextRegister initial).Reserves b.nextRegister := by
    cases initial with
    | none => exact ⟨.refl hopen1 hlater1.supported, hopen1, hreserves⟩
    | some v =>
      exact ⟨.store hopen1 hlater1.supported hslot1 fun r hr => hinitial r ⟨v, rfl, hr⟩,
        hopen1.withInstruction _,
        ((Builder.Extends.refl b1).instruction hopen1 rfl).reserves hreserves⟩
  obtain ⟨hlater2, hopen2, hreserves2⟩ := hinit
  refine ⟨known1, ((hlater0.trans hopen0 hlater1).trans hopen1 hlater2).trans hopen2
    (.of_extends hopen2 ((Builder.Extends.refl _).bound hreserves2) rfl ?_)⟩
  exact hlater2.supported.withVariable hreserves2

variable {condition : Lower IR.Value}

section

variable (hcond : Reads (fun _ => False) condition IR.Value.IsIn)
include hcond

theorem ifThen {thenBody : Lower Unit} (hthen : ReadsWithin loop thenBody) :
    ReadsWithin loop (Lowering.ifThen condition thenBody) := by
  intro b b' known hopen hsup hfeeds h
  obtain ⟨value, b1, _, hrun, hrun', rfl⟩ := Lowering.ifThen_stages h
  obtain ⟨_, hlater1, hopen1, hvalue⟩ := hcond hopen hsup (fun _ hr => hr.elim) hrun
  obtain ⟨_, hfork, -, hend⟩ := Builder.later_fork hopen1 hlater1.supported
    ("if.then", "if.end") (t := .branch value b1.blocks.length (b1.blocks.length + 1))
    (by simpa [IR.Terminator.uses, IR.Terminator.operands] using hvalue)
    (by simp [IR.Terminator.targets])
  have hopen2 : (b1.enterThen "if.end" value).IsOpen := Builder.isOpen_fork hopen1 _ _
  obtain ⟨known3, hlater3⟩ := hthen hopen2 hfork.supported
    ((hfeeds.later hlater1 hopen1).later hfork hopen2) hrun'
  -- The block after the conditional starts with what was known before the fork.
  have hlt : b1.blocks.length + 1 < (b1.enterThen "if.end" value).blocks.length :=
    (Builder.openAt_fork hopen1 _ _).lt
  have hend3 := (hlater3.agrees _ hlt).trans hend
  have hlt3 := Nat.lt_of_lt_of_le hlt hlater3.length_le
  exact ⟨known3, hlater1.trans hopen1
    ((hfork.trans hopen2 hlater3).fall hlt3 hend3 hlt3 hend3)⟩

theorem ifThenElse {thenBody elseBody : Lower Unit}
    (hthen : ReadsWithin loop thenBody) (helse : ReadsWithin loop elseBody)
    (hthenExt : Extending loop thenBody) (helseExt : Extending loop elseBody) :
    ReadsWithin loop (Lowering.ifThenElse condition thenBody elseBody) := by
  intro b b' known hopen hsup hfeeds h
  obtain ⟨value, b1, b2, _, hrun, hrun', hrun'', rfl⟩ := Lowering.ifThenElse_stages h
  obtain ⟨known1, hlater1, hopen1, hvalue⟩ := hcond hopen hsup (fun _ hr => hr.elim) hrun
  obtain ⟨_, hfork, -, hstart⟩ := Builder.later_fork hopen1 hlater1.supported
    ("if.then", "if.else") (t := .branch value b1.blocks.length (b1.blocks.length + 1))
    (by simpa [IR.Terminator.uses, IR.Terminator.operands] using hvalue)
    (by simp [IR.Terminator.targets])
  have hopen2 : (b1.enterThen "if.else" value).IsOpen := Builder.isOpen_fork hopen1 _ _
  have hfeeds1 := hfeeds.later hlater1 hopen1
  have hfeeds2 := hfeeds1.later hfork hopen2
  obtain ⟨known3, hlater3⟩ := hthen hopen2 hfork.supported hfeeds2 hrun'
  have hext3 := hthenExt hopen2 hfeeds2.admits hrun'
  -- The `else` branch starts in a block that the `then` branch left as it was.
  have helseOpen : (b2.movedTo (b1.blocks.length + 1)).IsOpen :=
    hext3.openAt (Builder.openAt_fork hopen1 _ _) (Nat.succ_ne_self _)
  have hstart3 : known3 (b1.blocks.length + 1) = b1.Knows known1 :=
    (hlater3.agrees _ (Builder.openAt_fork hopen1 _ _).lt).trans hstart
  have hthenLater := hfork.trans hopen2 hlater3
  have hmoved : b1.Later known1 (b2.movedTo (b1.blocks.length + 1)) known3 :=
    hthenLater.move helseOpen.lt hstart3
  obtain ⟨_, hlater4⟩ := helse helseOpen hmoved.supported
    (hfeeds1.later hmoved helseOpen) hrun''
  have hext4 := helseExt helseOpen (hfeeds1.later hmoved helseOpen).admits hrun''
  obtain ⟨known5, hlater5⟩ := (hmoved.trans helseOpen hlater4).joined
    (Nat.lt_of_lt_of_le hlater3.current_lt hext4.length_le) (by
      intro hopen4 r hr
      have hopen3 : b2.IsOpen := hext4.openAt_of hlater3.current_lt hopen4
      have hr3 : (b2.movedTo (b1.blocks.length + 1)).KnowsAt known3 b2.current r :=
        hthenLater.keeps hopen3 r hr
      exact hr3.mono hext4 (hlater4.agrees _ hlater3.current_lt))
  exact ⟨known5, hlater1.trans hopen1 hlater5⟩

theorem whileLoop {body : LoopTargets → Lower Unit}
    (hbody : ∀ targets, ReadsWithin (some targets) (body targets)) (hcondExt : Advances condition) :
    ReadsWithin loop (Lowering.loop condition body) := by
  intro b b' known hopen hsup hfeeds h
  obtain ⟨value, b1, b2, hrun, hrun', rfl⟩ := Lowering.loop_stages h
  obtain ⟨known0, hsup0, hsame0, hstarts0⟩ := hsup.enterLoop hopen
  have hopen0 : ∀ n : Nat, n < 3 → b.enterLoop.OpenAt (b.blocks.length + n) := fun n hn =>
    Builder.openAt_enterLoop hopen hn
  have hlater0 : b.Later known b.enterLoop known0 :=
    ⟨hsup0, by simp [Builder.enterLoop], (hopen0 0 (by decide)).lt, hsame0, fun _ r hr =>
      Builder.knowsAt_of_known (hopen0 0 (by decide)).lt (hstarts0 0 (by decide) ▸ hr)⟩
  obtain ⟨known1, hlater1, hopen1, hvalue⟩ := hcond (hopen0 0 (by decide)) hsup0
    (fun _ hr => hr.elim) hrun
  have hstarts1 : ∀ n : Nat, n < 3 → known1 (b.blocks.length + n) = b.Knows known := fun n hn =>
    (hlater1.agrees _ (hopen0 n hn).lt).trans (hstarts0 n hn)
  have hlt1 : ∀ n : Nat, n < 3 → b.blocks.length + n < b1.blocks.length := fun n hn =>
    Nat.lt_of_lt_of_le (hopen0 n hn).lt hlater1.length_le
  -- The condition decides between the body and the end of the loop.
  have hbefore := hlater0.trans (hopen0 0 (by decide)) hlater1
  have htarget : ∀ n : Nat, n < 3 → b.blocks.length + n < b1.blocks.length ∧
      ∀ r, known1 (b.blocks.length + n) r → b1.Knows known1 r := fun n hn =>
    ⟨hlt1 n hn, fun r hr => hbefore.keeps hopen1 r (hstarts1 n hn ▸ hr)⟩
  have hlater2 : b.Later known (b1.enterBody b.blocks.length value) known1 := by
    refine (hbefore.close ?_ ?_).move (by simpa using hlt1 1 (by decide)) (hstarts1 1 (by decide))
    · simpa [IR.Terminator.uses, IR.Terminator.operands] using hvalue
    · simpa [IR.Terminator.targets] using ⟨htarget 1 (by decide), htarget 2 (by decide)⟩
  have hopen2 : (b1.enterBody b.blocks.length value).IsOpen := by
    have hext1 := (hcondExt (hopen0 0 (by decide)) hrun).1
    exact (hext1.openAt (hopen0 1 (by decide)) (Nat.succ_ne_self _)).withTerminator
      (hext1.current_ne (hopen0 1 (by decide)).lt (Nat.succ_ne_self _).symm) _
  have hfeeds2 : (b1.enterBody b.blocks.length value).Feeds known1 (some b.loopTargets) := by
    refine ⟨Builder.admits_loopTargets hopen ?_, ?_, ?_⟩
    · simpa [Builder.enterBody] using hlater1.length_le
    · rintro _ ⟨⟩ r hr
      exact hlater2.keeps hopen2 r (hstarts1 0 (by decide) ▸ hr)
    · rintro _ ⟨⟩ r hr
      exact hlater2.keeps hopen2 r (hstarts1 2 (by decide) ▸ hr)
  obtain ⟨known3, hlater3⟩ := hbody b.loopTargets hopen2 hlater2.supported hfeeds2 hrun'
  have hlt2 : ∀ n : Nat, n < 3 →
      b.blocks.length + n < (b1.enterBody b.blocks.length value).blocks.length := fun n hn => by
    simpa [Builder.enterBody] using hlt1 n hn
  have hlt3 : ∀ n : Nat, n < 3 → b.blocks.length + n < b2.blocks.length := fun n hn =>
    Nat.lt_of_lt_of_le (hlt2 n hn) hlater3.length_le
  have hstarts3 : ∀ n : Nat, n < 3 → known3 (b.blocks.length + n) = b.Knows known := fun n hn =>
    (hlater3.agrees _ (hlt2 n hn)).trans (hstarts1 n hn)
  exact ⟨known3, (hlater2.trans hopen2 hlater3).fall (hlt3 0 (by decide)) (hstarts3 0 (by decide))
    (hlt3 2 (by decide)) (hstarts3 2 (by decide))⟩

end

end ReadsWithin

end Lower

namespace Typed.Stmt

open Lower (Reads ReadsWithin)

mutual

/-- The code of a statement only reads registers that are known. -/
theorem reads_lower (symbols : SymbolTable) (loop : Option LoopTargets) :
    (s : Stmt) → ReadsWithin loop (s.lower symbols loop)
  | .block stmts _ => reads_lowerBlock symbols loop stmts
  | .binding symbol value _ => .binding symbols symbol value
  | .expression value =>
    .of_reads ((value.reads_lowerValue symbols _).bind fun _ => .pure fun _ hr => hr.elim)
  | .ret value _ => .ret (.optionalValue symbols _ value)
  | .assign target value _ => by
    refine .of_reads ((target.reads_lowerAddress symbols _).bind fun ptr =>
      (value.reads_lowerValue symbols _).bind fun v => .emit rfl ?_)
    intro w hw r hr
    simp only [IR.Instruction.operands, List.mem_cons, List.not_mem_nil, or_false] at hw
    rcases hw with rfl | rfl
    · exact Or.inl (Or.inr hr)
    · exact Or.inr hr
  | .conditional condition thenBody none _ =>
    .ifThen (condition.reads_lowerValue symbols _) (reads_lower symbols loop thenBody)
  | .conditional condition thenBody (some elseBody) _ =>
    .ifThenElse (condition.reads_lowerValue symbols _) (reads_lower symbols loop thenBody)
      (reads_lower symbols loop elseBody) (extending_lower symbols loop thenBody)
      (extending_lower symbols loop elseBody)
  | .whileLoop condition body none _ =>
    .whileLoop (condition.reads_lowerValue symbols _)
      (fun targets => reads_lower symbols (some targets) body)
      (Lower.Advances.closed.lowerValue symbols condition)
  | .whileLoop _ _ (some _) _ => .refuse _ _
  | .breakLoop _ => .loopJump fun _ => Or.inr rfl
  | .continueLoop _ => .loopJump fun _ => Or.inl rfl
  | .yield _ _ => .refuse _ _
  | .deadCode _ _ => .of_reads (.pure fun _ hr => hr.elim)

theorem reads_lowerBlock (symbols : SymbolTable) (loop : Option LoopTargets) :
    (stmts : List Stmt) → ReadsWithin loop (lowerBlock symbols loop stmts)
  | [] => .of_reads (.pure fun _ hr => hr.elim)
  | stmt :: rest => by
    intro b b' known hopen hsup hfeeds h
    obtain ⟨b1, hstmt, hrest⟩ := lowerBlock_cons_stages hopen h
    obtain ⟨known1, hlater⟩ := reads_lower symbols loop stmt hopen hsup hfeeds hstmt
    cases hclosed : b1.isClosed b1.current with
    | true =>
      rw [lowerBlock_of_closed hclosed, Except.ok.injEq, Prod.mk.injEq] at hrest
      exact ⟨known1, hrest.2 ▸ hlater⟩
    | false =>
      have hopen1 : b1.IsOpen := Builder.openAt_of_not_closed hlater.current_lt hclosed
      obtain ⟨known2, hlater2⟩ := reads_lowerBlock symbols loop rest hopen1 hlater.supported
        (hfeeds.later hlater hopen1) hrest
      exact ⟨known2, hlater.trans hopen1 hlater2⟩

end

end Typed.Stmt

end Laye
