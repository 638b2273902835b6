import Laye.Proofs.Lowering.Routes
import Laye.Proofs.Meaning.Operand

/-!
# The code of expressions follows their evaluation

`Typed.Expr.simulates_lower`: the code of a well-typed expression follows its evaluation, and leaves
an operand that stands for the result. The proof is by induction on the tree, from the rules of
`Activation.Simulates`.

Types matter in one place. An address is taken only of an expression that names a place
(`Typed.Expr.eval_isPlace`); of anything else, code would give the address of a private slot where
the evaluation has no address.
-/

namespace Laye

open IR

variable {Val State : Type} {A : Activation Val State} {all : List (SymbolId × Register)}
  {symbols : SymbolTable} {cells : SymbolId → Val}

/-! ### Short-circuit operators -/

namespace Activation

variable {b1 b2 : Builder} {isAnd : Bool} {slot : Register} {lhs rhs : IR.Value}
  {c : Config Val State}

/-- What a short-circuit operator leaves when its code is done. -/
def CircuitDone (A : Activation Val State) (all : List (SymbolId × Register)) (b1 b2 : Builder)
    (slot : Register) (rhs : IR.Value) (c : Config Val State) (r : Result Val)
    (c' : Config Val State) : Prop :=
  A.Placed all (b2.afterCircuit slot rhs (b1.blocks.length + 1)) c' ∧ c.Keeps slot c' ∧
    (A.gives (.value (.register b2.nextRegister)) r).holds (b2.nextRegister + 1) c'

theorem CircuitDone.of_keeps {c0 c' : Config Val State} {r : Result Val}
    (hkeeps : c0.Keeps slot c) (h : A.CircuitDone all b1 b2 slot rhs c r c') :
    A.CircuitDone all b1 b2 slot rhs c0 r c' :=
  ⟨h.1, hkeeps.trans h.2.1 (Nat.le_refl _), h.2.2⟩

theorem Arrived.follows_circuit {y : Val} (h : A.Arrived (b1.blocks.length + 1) c)
    (hroute : Builder.Detours isAnd slot lhs b1 b2) (hstarted : Builder.start.Extends b2)
    (hbound : b2.slots ⊆ all)
    (hle : slot ≤ b2.nextRegister)
    (hcompletes : A.Completes (b2.afterCircuit slot rhs (b1.blocks.length + 1)))
    (hslot : c.registers slot = some (.slot slot [])) (hy : c.slots slot = some y) :
    A.Follows 0 c ((pure (.value y) : Effect State (Result Val)) c.state)
      (A.CircuitDone all b1 b2 slot rhs c) := by
  have hplaced : A.Placed all (b2.leaveCircuit slot rhs (b1.blocks.length + 1)) c := h.placed
    (hcompletes.of_leads (.afterCircuit hroute.openLeft hroute.right rhs))
    ((hroute.leave rhs).started hstarted) (by simpa [Builder.leaveCircuit] using hbound)
    (Builder.emptyAt_leaveCircuit hroute.openLeft hroute.right hroute.openEnd)
  have hload := hplaced.follows_define (E := (pure y : Effect State Val)) (w := .value)
    (fun _ => rfl) (fun _ => rfl) hcompletes fun code => ?_
  · refine hload.bind (F := fun z => (pure (Result.value z) : Effect State (Result Val))) ?_
    rintro z c' ⟨hplaced', hkeeps, hword⟩
    rw [Builder.leaveCircuit_nextRegister] at hkeeps hword
    refine .pure ⟨hplaced', hkeeps.mono hle, ?_, hword⟩
    intro r hr
    cases hr
    exact Nat.lt_succ_self _
  · have hslot' : A.word { c with code := code } (.register slot) = some (.slot slot []) := hslot
    simp only [execute, hslot', hy, Option.bind_eq_bind, Option.bind_some]
    rfl

namespace Simulates

variable {left right : Lower IR.Value} {L R : Effect State Val}

theorem follows_right
    (hright : A.Simulates all (.always True) right R fun v y => A.stands v (.value y))
    (hrun : right (b1.enterCircuit isAnd slot lhs) = .ok (rhs, b2)) (hopen1 : b1.IsOpen)
    (hplaced : A.Placed all (b1.enterCircuit isAnd slot lhs) c) (hlt : slot < b1.nextRegister)
    (hapart : Builder.Apart all (b1.enterCircuit isAnd slot lhs) b2)
    (hcompletes : A.Completes (b2.afterCircuit slot rhs (b1.blocks.length + 1)))
    (hslot : c.registers slot = some (.slot slot [])) :
    A.Follows 0 c ((R >>= fun z => Pure.pure (.value z)) c.state)
      (A.CircuitDone all b1 b2 slot rhs c) := by
  have hroute := Builder.detours hopen1 hright.advances hrun
  have hcompletes3 := hcompletes.of_leads (.afterCircuit hopen1 hroute.right rhs)
  have hstored := hcompletes3.of_leads (.resumeAt (by simpa using hroute.openEnd.lt)
    (by simpa using hroute.end_lt) (Nat.succ_ne_zero _))
  have hcompletes2 := hstored.of_extends ((Builder.Extends.refl b2).instruction hroute.openEnd rfl)
  -- The operand, the store into the slot, and the jump to the end.
  refine (hright.follows hrun hcompletes2 hapart hplaced trivial).bind ?_
  rintro z c1 ⟨hplaced1, hkeeps1, hz⟩
  have hslot1 := (hkeeps1.registers slot hlt).trans hslot
  refine (hplaced1.follows_fill hstored hslot1 (value_of_stands hz)).silent ?_
  rintro c2 ⟨hplaced2, hregisters, hslots⟩
  have hle : slot < b2.nextRegister := Nat.lt_of_lt_of_le hlt hroute.right.nextRegister_le
  refine (hplaced2.jump (.resumeAt hplaced2.isOpen _) hcompletes3
    (by simpa [Builder.leaveCircuit] using hroute.end_lt)).weaken.silent ?_
  rintro c3 ⟨harrived, hkeeps3⟩
  have hkeeps : c.Keeps slot c3 :=
    ((hkeeps1.mono (Nat.le_of_lt hlt)).trans (.fill (Nat.le_refl _) hregisters hslots)
      (Nat.le_refl _)).trans hkeeps3 (Nat.le_of_lt hle)
  refine (harrived.follows_circuit hroute hplaced1.started hplaced1.bound
    (Nat.le_of_lt hle) hcompletes ?_ ?_).mono fun r c' h => h.of_keeps hkeeps
  · rw [hkeeps3.registers slot hle, hregisters, hslot1]
  · rw [hkeeps3.slots slot hle, hslots, Config.fill_self]

theorem follows_decision {y : Val}
    (hright : A.Simulates all (.always True) right R fun v y => A.stands v (.value y))
    (hbinds : Lower.Binds (fun _ => False) right)
    (hrun : right (b1.enterCircuit isAnd slot lhs) = .ok (rhs, b2)) (hplaced : A.Placed all b1 c)
    (hlt : slot < b1.nextRegister) (hapart : Builder.Apart all b1 b2)
    (hcompletes : A.Completes (b2.afterCircuit slot rhs (b1.blocks.length + 1)))
    (hslot : c.registers slot = some (.slot slot []))
    (hlhs : (A.stands lhs (.value y)).holds b1.nextRegister c) :
    A.Follows 0 c ((A.machine.test y >>= fun decision =>
        if decision = isAnd then R >>= fun z => Pure.pure (.value z)
        else Pure.pure (.value y)) c.state) (A.CircuitDone all b1 b2 slot rhs c) := by
  have hopen1 := hplaced.isOpen
  have hroute := Builder.detours hopen1 hright.advances hrun
  have hentered := hcompletes.of_leads (hroute.right.leads.trans (hroute.finish rhs))
  have hstored := hentered.of_extends (Builder.extends_enterCircuit hopen1 isAnd slot lhs)
  have hfork : (b1.withInstruction (.store (.register slot) lhs)).Closes
      (b1.enterCircuit isAnd slot lhs) (b1.circuitBranch isAnd lhs) :=
    .fork (by simpa using hopen1.lt) _ _
  rw [Builder.circuitBranch_eq] at hfork
  have htargets : ∀ decision : Bool, (if decision = isAnd then b1.blocks.length
      else b1.blocks.length + 1) < (b1.enterCircuit isAnd slot lhs).blocks.length := by
    intro decision
    split <;> simp
  -- The value is stored, and the branch is taken.
  refine (hplaced.follows_fill hstored hslot (value_of_stands hlhs)).silent ?_
  rintro c1 ⟨hplaced1, hregisters, hslots⟩
  have hlhs1 : (A.stands lhs (.value y)).holds b1.nextRegister c1 :=
    ⟨hlhs.1, (word_eq hlhs.1 fun r _ => by rw [hregisters]).trans hlhs.2⟩
  refine (hplaced1.branch hfork hentered (htargets true) (htargets false) fun c' hkeeps =>
    value_of_stands ((A.stands lhs (.value y)).stable (Nat.le_refl _) hkeeps hlhs1)).weaken.bind ?_
  rintro decision c2 ⟨harrived, hkeeps2⟩
  have hkeeps : c.Keeps slot c2 :=
    (Config.Keeps.fill (Nat.le_refl _) hregisters hslots).trans hkeeps2 (Nat.le_of_lt hlt)
  have hslot2 : c2.registers slot = some (.slot slot []) := by
    rw [hkeeps2.registers slot hlt, hregisters, hslot]
  have hstarted := (Builder.extends_enterCircuit hopen1 isAnd slot lhs).leads.started
    hplaced1.started
  have htarget : (if decision = true then
      if true = isAnd then b1.blocks.length else b1.blocks.length + 1
      else if false = isAnd then b1.blocks.length else b1.blocks.length + 1) =
      if decision = isAnd then b1.blocks.length else b1.blocks.length + 1 := by
    cases decision <;> rfl
  rw [htarget] at harrived
  by_cases hdecision : decision = isAnd
  · rw [if_pos hdecision] at harrived ⊢
    have hplaced2 : A.Placed all (b1.enterCircuit isAnd slot lhs) c2 := by
      refine Arrived.placed ?_ hentered hstarted hplaced.bound ?_
      · rwa [Builder.enterCircuit_current]
      · rw [Builder.enterCircuit_current]
        exact Builder.emptyAt_enterCircuit hopen1.lt isAnd slot lhs
    exact (follows_right hright hrun hopen1 hplaced2 hlt hapart hcompletes hslot2).mono
      fun r c' h => h.of_keeps hkeeps
  · rw [if_neg hdecision] at harrived ⊢
    have hbound : b2.slots ⊆ all := by
      rw [(hbinds hrun).slots_eq]
      exact hplaced.bound
    refine (harrived.follows_circuit hroute (hroute.right.leads.started hstarted) hbound
      (Nat.le_trans (Nat.le_of_lt hlt) hroute.right.nextRegister_le) hcompletes hslot2 ?_).mono
        fun r c' h => h.of_keeps hkeeps
    rw [hkeeps2.slots slot hlt, hslots, Config.fill_self]

theorem shortCircuit (hlayout : A.Layout symbols cells all) (isAnd : Bool)
    (hleft : A.Simulates all (.always True) left L fun v y => A.stands v (.value y))
    (hright : A.Simulates all (.always True) right R fun v y => A.stands v (.value y))
    (hbinds : Lower.Binds (fun _ => False) right) :
    A.Simulates all (.always True) (Lowering.shortCircuit isAnd left right)
      (L >>= fun y => A.machine.test y >>= fun decision =>
        if decision = isAnd then R >>= fun z => Pure.pure (.value z) else Pure.pure (.value y))
      A.gives := by
  refine ⟨.shortCircuit hleft.advances hright.advances, ?_⟩
  intro b op b' c hrun hcompletes hapart hplaced _
  obtain ⟨_, b1, rhs, b2, _, hl, hr, rfl, rfl, rfl⟩ := Lowering.shortCircuit_stages hrun
  obtain ⟨hext1, hopen1⟩ := hleft.advances (hplaced.isOpen.withSlot .bool) hl
  have hroute := Builder.detours hopen1 hright.advances hr
  have hle1 : b.nextRegister < b1.nextRegister := hext1.nextRegister_le
  have hle2 : b1.nextRegister ≤ b2.nextRegister := hroute.right.nextRegister_le
  have hentered := hcompletes.of_leads (hroute.right.leads.trans (hroute.finish rhs))
  have hcompletes1 := hentered.of_extends hroute.branch
  have hslotWord : A.slotWord b.nextRegister = .slot b.nextRegister [] := by
    refine hlayout.slotWord_of_apart hapart (Nat.le_refl _) ?_
    rw [Builder.withDefinition_nextRegister, Builder.leaveCircuit_nextRegister]
    exact Nat.lt_succ_of_lt (Nat.lt_of_lt_of_le hle1 hle2)
  rw [Builder.Apart, Builder.withDefinition_nextRegister, Builder.leaveCircuit_nextRegister]
    at hapart
  have hapart1 : Builder.Apart all b1 b2 := fun e he =>
    (hapart e he).imp (Nat.lt_trans · hle1) Nat.le_of_succ_le
  have hapart0 : Builder.Apart all (b.withSlot .bool) b1 := fun e he =>
    (hapart e he).imp Nat.lt_succ_of_lt (Nat.le_trans (Nat.le_succ_of_le hle2))
  -- The slot is reserved, the left operand runs, and it decides.
  refine (hplaced.follows_reserve (hcompletes1.of_extends hext1)).silent ?_
  rintro c0 ⟨hplaced0, hkeeps0, hslot0⟩
  rw [hslotWord] at hslot0
  refine (hleft.follows hl hcompletes1 hapart0 hplaced0 trivial).bind ?_
  rintro y c1 ⟨hplaced1, hkeeps1, hy⟩
  have hslot1 := (hkeeps1.registers b.nextRegister (Nat.lt_succ_self _)).trans hslot0
  refine (follows_decision hright hbinds hr hplaced1 hle1 hapart1 hcompletes hslot1 hy).mono ?_
  rintro r c' ⟨hplaced', hkeeps, hgives⟩
  refine ⟨hplaced', (hkeeps0.trans hkeeps1 (Nat.le_succ _)).trans hkeeps (Nat.le_refl _), ?_⟩
  rwa [Builder.withDefinition_nextRegister, Builder.leaveCircuit_nextRegister]

end Simulates

end Activation

/-! ### Places -/

namespace Effect

theorem bind_eq_some {α β : Type} {x : Effect State α} {f : α → Effect State β} {s : State}
    {r : β × State} : (x >>= f) s = some r ↔ ∃ a s', x s = some (a, s') ∧ f a s' = some r := by
  show (x s).bind (fun p => f p.1 p.2) = some r ↔ _
  cases x s with
  | none => simp
  | some p =>
    obtain ⟨a, _⟩ := p
    simp

theorem pure_eq_some {α : Type} {a : α} {s : State} {r : α × State} :
    (pure a : Effect State α) s = some r ↔ (a, s) = r := by
  show some (a, s) = some r ↔ _
  simp

end Effect

/-- The result is a place. -/
def Result.IsPlace (r : Result Val) : Prop := ∃ a, r = .place a

variable {M : Machine Val State}

theorem Result.isPlace_part {projection : Projection Val} {whole r : Result Val} {s s' : State}
    (h : whole.IsPlace) (hpart : whole.part M projection s = some (r, s')) : r.IsPlace := by
  obtain ⟨a, rfl⟩ := h
  obtain ⟨a', _, -, hrest⟩ := Effect.bind_eq_some.mp hpart
  rw [Effect.pure_eq_some, Prod.mk.injEq] at hrest
  exact ⟨a', hrest.1.symm⟩

theorem Result.isPlace_elements {ty : Laye.Ty} {r container : Result Val} {s s' : State}
    (harray : ∀ element size access, ty = .array element size access → r.IsPlace)
    (h : r.elements M ty s = some (container, s')) : container.IsPlace := by
  cases ty with
  | array element size access =>
    rw [elements, Effect.pure_eq_some, Prod.mk.injEq] at h
    exact h.1 ▸ harray element size access rfl
  | pointer _ _ | buffer _ _ | rawptr =>
    obtain ⟨a, _, -, hrest⟩ := Effect.bind_eq_some.mp h
    rw [Effect.pure_eq_some, Prod.mk.injEq] at hrest
    exact ⟨a, hrest.1.symm⟩
  | slice _ _ | string =>
    obtain ⟨y, _, -, hdata⟩ := Effect.bind_eq_some.mp h
    obtain ⟨a, _, -, hrest⟩ := Effect.bind_eq_some.mp hdata
    rw [Effect.pure_eq_some, Prod.mk.injEq] at hrest
    exact ⟨a, hrest.1.symm⟩
  | _ => cases h

namespace Typed.Expr

open Activation (Simulates value_of_stands)

theorem eval_isPlace {M : Machine Val State} : (e : Expr) → {s s' : State} → {r : Result Val} →
    e.isPlace symbols.isBinding = true → e.eval M symbols cells s = some (r, s') → r.IsPlace
  | .load _ _ symbol, s, _, r, hplace, h => by
    have hkind : (symbols.symbolAt symbol).kind ≠ .function := by
      intro heq
      simp [isPlace, SymbolTable.isBinding, heq] at hplace
    rw [eval, if_neg hkind, Effect.pure_eq_some, Prod.mk.injEq] at h
    exact ⟨cells symbol, h.1.symm⟩
  | .dereference _ _ _, s, _, r, _, h => by
    obtain ⟨_, _, -, hload⟩ := Effect.bind_eq_some.mp h
    obtain ⟨a, _, -, hrest⟩ := Effect.bind_eq_some.mp hload
    rw [Effect.pure_eq_some, Prod.mk.injEq] at hrest
    exact ⟨a, hrest.1.symm⟩
  | .index _ _ target i, s, _, r, hplace, h => by
    obtain ⟨_, _, htarget, hrest1⟩ := Effect.bind_eq_some.mp h
    obtain ⟨_, _, helements, hrest2⟩ := Effect.bind_eq_some.mp hrest1
    obtain ⟨_, _, -, hrest3⟩ := Effect.bind_eq_some.mp hrest2
    obtain ⟨y, _, -, hpart⟩ := Effect.bind_eq_some.mp hrest3
    refine Result.isPlace_part (Result.isPlace_elements ?_ helements) hpart
    intro element size access hty
    rw [isPlace, hty] at hplace
    exact eval_isPlace target hplace htarget
  | .field _ _ target _ _, s, _, r, hplace, h => by
    unfold eval at h
    cases hty : target.ty with
    | struct _ _ _ =>
      simp only [hty] at h
      obtain ⟨_, _, htarget, hpart⟩ := Effect.bind_eq_some.mp h
      exact Result.isPlace_part (eval_isPlace target hplace htarget) hpart
    | _ =>
      simp only [hty] at h
      cases h

variable {e : Expr}

theorem ite_eq_not {α : Type} (a b : Bool) (x y : α) :
    (if a = !b then x else y) = if a = b then y else x := by
  cases a <;> cases b <;> rfl

theorem simulates_address [Nonempty Val] (hlayout : A.Layout symbols cells all) (ty : Laye.Ty)
    {lowered : Lower Operand}
    (h : A.Simulates all (.always True) lowered (e.eval A.machine symbols cells) A.gives)
    (hplace : e.isPlace symbols.isBinding = true) :
    A.Simulates all (.always True) (lowered >>= fun op => op.address ty)
      (e.eval A.machine symbols cells >>= fun r => r.address)
      fun v a => A.stands v (.value a) := by
  refine (h.know (T := Result.IsPlace) fun s r s' hr => eval_isPlace e hplace hr).bind
    fun op r => ?_
  cases r with
  | value y =>
    exact .of_false (Lower.Advances.closed.address ty op) fun n c ⟨_, a, ha⟩ => nomatch ha
  | place a =>
    refine Simulates.weaken (Q := A.gives op (.place a)) ?_ fun _ _ hv => hv.1
    exact (Simulates.address hlayout ty op (.place a)).map (g := fun _ => a) fun _ _ _ _ hv => hv

mutual

/-- The code of a well-typed expression follows its evaluation. -/
theorem simulates_lower [Nonempty Val] (hlayout : A.Layout symbols cells all) : (e : Expr) →
    e.WellTyped symbols → A.Simulates all (.always True) (e.lower symbols)
      (e.eval A.machine symbols cells) A.gives
  | .integer _ _ _ _, _ | .float _ _ _, _ | .bool _ _ _, _ | .string _ _ _, _ =>
    .pure fun _ _ _ => ⟨(fun _ hr => nomatch hr), rfl⟩
  | .load _ span symbol, _ => .symbol hlayout symbol span
  | .cast _ _ inner, h | .materialize _ _ inner, h | .unary _ _ _ inner, h => by
    have hinner : inner.WellTyped symbols := by cases h; assumption
    refine (simulates_lower hlayout inner hinner).operation (fun _ _ => rfl) (fun _ _ => rfl)
      fun _ _ _ => ?_
    simp only [Ty.held_eq_shape, UnaryOp.meaning_eq_operation]
    rfl
  | .invoke ty _ function args, h => by
    have hargs : ∀ arg ∈ args, arg.WellTyped symbols := by cases h; assumption
    exact (simulates_lowerAll hlayout args hargs).bind fun vs ys => .call _ ty vs ys
  | .binary _ _ op left right, h => by
    have hleft : left.WellTyped symbols := by cases h; assumption
    have hright : right.WellTyped symbols := by cases h; assumption
    have ihleft := simulates_lower hlayout left hleft
    have ihright := simulates_lower hlayout right hright
    unfold lower eval
    cases hlogical : op.isLogical with
    | true =>
      have hcircuit := Simulates.shortCircuit hlayout (op == .logicalAnd)
        (ihleft.bind fun op r => Simulates.load left.ty op r)
        (ihright.bind fun op r => Simulates.load right.ty op r)
        (Lower.Binds.closed.lowerValue symbols right)
      simpa only [BinaryOp.meaning_eq_decidedBy hlogical, if_true, ite_eq_not, bind_assoc]
        using hcircuit
    | false =>
      simp only [BinaryOp.meaning_eq_computes hlogical, Bool.false_eq_true, if_false,
        Ty.held_eq_shape]
      refine ihleft.bind fun op r => (Simulates.load _ op r).bind fun v y =>
        (ihright.after _).bind fun op r => ((Simulates.load _ op r).frame _).bind fun w z =>
        .computed (fun _ => rfl) (fun _ => rfl) fun r hv => ?_
      simp only [Activation.execute, value_of_stands hv.1, value_of_stands hv.2,
        Option.bind_eq_bind, Option.bind_some]
  | .addressOf _ _ inner, h => by
    have hinner : inner.WellTyped symbols := by cases h; assumption
    have hplace : inner.isPlace symbols.isBinding = true := by cases h; assumption
    have haddress := (simulates_address hlayout inner.ty
      (simulates_lower hlayout inner hinner) hplace).bind (f := fun v => pure (Operand.value v))
        (F := fun a => pure (Result.value a)) (S := A.gives) fun v a => .pure fun _ _ hv => hv
    unfold lower eval
    simpa only [bind_assoc] using haddress
  | .dereference _ _ inner, h => by
    have hinner : inner.WellTyped symbols := by cases h; assumption
    exact (simulates_lower hlayout inner hinner).bind fun op r => (Simulates.load _ op r).bind
      fun v y => .pure fun _ _ hv => hv
  | .index ty _ target i, h => by
    have htarget : target.WellTyped symbols := by cases h; assumption
    have hi : i.WellTyped symbols := by cases h; assumption
    unfold lower eval
    rw [Ty.held_eq_shape]
    have hindex := (simulates_lower hlayout i hi).bind fun op r => Simulates.load i.ty op r
    have helement := (Simulates.elements hlayout target
      (simulates_lower hlayout target htarget)).bind fun base container =>
        (hindex.after _).bind fun v y => Simulates.part (.element ty.shape y)
          (i := fun dest => .element dest base v ty.shape) (fun _ => rfl) (fun _ => rfl)
          fun r hv => ?_
    · simpa only [Lowering.element, bind_assoc] using helement
    · simp only [Activation.execute, value_of_stands hv, Option.bind_eq_bind, Option.bind_some]
  | .field _ _ target _ place, h => by
    have htarget : target.WellTyped symbols := by cases h; assumption
    have ih := simulates_lower hlayout target htarget
    unfold lower eval Lowering.field
    cases hty : target.ty with
    | struct name typeParams fields =>
      exact ih.bind fun op r => (Simulates.address hlayout _ op r).bind_silent fun base =>
        (Simulates.part _ (P := .always True) (fun _ => rfl) (fun _ => rfl) fun _ _ => rfl).weaken
          fun _ _ hv => ⟨trivial, hv⟩
    | _ => exact .refuse _ _

theorem simulates_lowerAll [Nonempty Val] (hlayout : A.Layout symbols cells all) :
    (es : List Expr) → (∀ e ∈ es, e.WellTyped symbols) →
      A.Simulates all (.always True) (lowerAll symbols es) (evalAll A.machine symbols cells es)
        A.standAll
  | [], _ => by
    exact .pure fun _ _ _ => trivial
  | e :: es, h => by
    have he := simulates_lower hlayout e (h e (by simp))
    have hes := simulates_lowerAll hlayout es fun e' he' => h e' (by simp [he'])
    exact he.bind fun op r => (Simulates.load _ op r).bind fun v y => (hes.after _).bind
      fun vs ys => .pure fun _ _ hv => ⟨hv.2, hv.1⟩

end

/-- The code of an expression computes the value that it has in the language. -/
theorem simulates_lowerValue [Nonempty Val] (hlayout : A.Layout symbols cells all)
    (h : e.WellTyped symbols) :
    A.Simulates all (.always True) (e.lowerValue symbols) (e.evalValue A.machine symbols cells)
      fun v y => A.stands v (.value y) :=
  (simulates_lower hlayout e h).bind fun op r => .load _ op r

/-- The code of a place computes its address. -/
theorem simulates_lowerAddress [Nonempty Val] (hlayout : A.Layout symbols cells all)
    (h : e.WellTyped symbols) (hplace : e.isPlace symbols.isBinding = true) :
    A.Simulates all (.always True) (e.lowerAddress symbols) (e.evalAddress A.machine symbols cells)
      fun v a => A.stands v (.value a) :=
  simulates_address hlayout e.ty (simulates_lower hlayout e h) hplace

/-- Optional operands stand for optional values. -/
def standOption (A : Activation Val State) : Option IR.Value → Option Val → Fact Val State
  | none, none => .always True
  | some v, some y => A.stands v (.value y)
  | _, _ => .always False

theorem simulates_optionalValue [Nonempty Val] (hlayout : A.Layout symbols cells all)
    {value : Option Expr} (h : ∀ e, value = some e → e.WellTyped symbols) :
    A.Simulates all (.always True) (Lowering.optionalValue symbols value)
      (evalOption A.machine symbols cells value) (standOption A) := by
  cases value with
  | none => exact .pure fun _ _ _ => trivial
  | some e => exact (simulates_lowerValue hlayout (h e rfl)).bind fun v y => .pure fun _ _ hv => hv

end Typed.Expr

end Laye
