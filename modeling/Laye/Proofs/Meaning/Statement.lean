import Laye.Proofs.Meaning.Expression

/-!
# The code of statements follows their execution

`Typed.Stmt.executes_lower`: the code of a well-typed statement follows its execution. Where control
goes on after the statement, the run is behind its code. After `break` and `continue` it is at the
start of a block of the loop around, and after `return` it is about to return
(`Activation.Exits`).

`Activation.Executes` says this of a step of lowering. Conditionals and loops are rules for it, and
the theorem puts them together by induction on the tree.
-/

namespace Laye

open IR

variable {Val State : Type} {A : Activation Val State} {all : List (SymbolId × Register)}
  {symbols : SymbolTable} {cells : SymbolId → Val} {loop : Option LoopTargets}
  {b b' b1 b2 : Builder} {c c' c1 : Config Val State} {n m : Register}

/-! ### Variables so far -/

namespace Builder

/-- Of all variables of the function, the builder has those whose slots are in registers that are in
use. -/
structure Fits (all : List (SymbolId × Register)) (b : Builder) : Prop where
  bound : b.slots ⊆ all
  rest : ∀ e ∈ all, e ∈ b.slots ∨ b.nextRegister ≤ e.2

namespace Fits

theorem of_binds {P : SymbolId → Prop} (h : Fits all b') (hbinds : b.Binds P b') : Fits all b := by
  obtain ⟨_, hslots, hadded, -⟩ := hbinds.slots
  have hbound := h.bound
  rw [hslots] at hbound
  refine ⟨fun e he => hbound (List.mem_append_right _ he), fun e he => ?_⟩
  rcases h.rest e he with hmem | hle
  · rw [hslots] at hmem
    rcases List.mem_append.mp hmem with hmem | hmem
    · exact .inr (hadded e hmem).2.1
    · exact .inl hmem
  · exact .inr (Nat.le_trans hbinds.nextRegister_le hle)

theorem apart (h : Fits all b') (hslots : ∀ e ∈ b'.slots, e.2 < b.nextRegister) :
    Apart all b b' :=
  fun e he => (h.rest e he).imp_left (hslots e)

theorem apart_of_binds (h : Fits all b') (hbinds : b.Binds (fun _ => False) b')
    (hstarted : start.Extends b) : Apart all b b' := by
  refine h.apart fun e he => ?_
  rw [hbinds.slots_eq] at he
  exact lt_of_mem_slots hstarted he

end Fits

end Builder

/-! ### Outcomes -/

namespace Activation

/-- Where the run is after a statement with the given outcome. At the start of the statement it was
`c`, with the registers below `n` in use, and `b'` is the builder after the code. -/
def Exits (A : Activation Val State) (all : List (SymbolId × Register))
    (loop : Option LoopTargets) (n : Register) (b' : Builder) (c : Config Val State) :
    Outcome Val → Config Val State → Prop
  | .next, c' => A.Placed all b' c' ∧ c.Keeps n c'
  | .breakLoop, c' => ∃ t, loop = some t ∧ A.Arrived t.breakTarget c' ∧ c.Keeps n c'
  | .continueLoop, c' => ∃ t, loop = some t ∧ A.Arrived t.continueTarget c' ∧ c.Keeps n c'
  | .ret v, c' => A.step c' = some (.returned v c'.state)

namespace Exits

variable {o : Outcome Val}

theorem of_keeps (h : A.Exits all loop m b' c1 o c') (hkeeps : c.Keeps n c1) (hle : n ≤ m) :
    A.Exits all loop n b' c o c' := by
  cases o with
  | next => exact ⟨h.1, hkeeps.trans h.2 hle⟩
  | breakLoop | continueLoop =>
    obtain ⟨t, ht, harrived, hkeeps'⟩ := h
    exact ⟨t, ht, harrived, hkeeps.trans hkeeps' hle⟩
  | ret v => exact h

theorem escape (h : A.Exits all loop n b1 c o c') (hne : o ≠ .next) :
    A.Exits all loop n b2 c o c' := by
  cases o with
  | next => exact absurd rfl hne
  | _ => exact h

end Exits

variable {E : Effect State (Outcome Val)}

section

variable (h : A.Follows 0 c1 (E c1.state) (A.Exits all loop m b1 c1)) (hkeeps : c.Keeps n c1)
  (hle : n ≤ m)
include h hkeeps hle

theorem Follows.exits {F : Outcome Val → Effect State (Outcome Val)}
    (hF : ∀ o, o ≠ .next → F o = Pure.pure o)
    (hnext : ∀ c', A.Placed all b1 c' → c.Keeps n c' →
      A.Follows 0 c' (F .next c'.state) (A.Exits all loop n b2 c)) :
    A.Follows 0 c1 ((E >>= F) c1.state) (A.Exits all loop n b2 c) := by
  refine h.bind fun o c' ho => ?_
  have ho' := ho.of_keeps hkeeps hle
  by_cases heq : o = .next
  · subst heq
    exact hnext c' ho'.1 ho'.2
  · rw [hF o heq]
    exact .pure (ho'.escape heq)

theorem Follows.exits_silent {k : Register} (hle' : n ≤ k) (hnext : ∀ c', A.Placed all b1 c' →
      A.Follows 0 c' ((Pure.pure () : Effect State Unit) c'.state) fun _ c'' =>
        A.Placed all b2 c'' ∧ c'.Keeps k c'') :
    A.Follows 0 c1 (E c1.state) (A.Exits all loop n b2 c) := by
  have hboth := h.exits (F := Pure.pure) hkeeps hle (fun _ _ => rfl) fun c' hplaced hkeeps' =>
    (hnext c' hplaced).silent fun c'' hc'' => .pure ⟨hc''.1, hkeeps'.trans hc''.2 hle'⟩
  rwa [bind_pure] at hboth

end

/-- All that the builder has is in the finished function. -/
structure Hosts (A : Activation Val State) (all : List (SymbolId × Register)) (b : Builder) :
    Prop where
  completes : A.Completes b
  fits : Builder.Fits all b

/-- A function that hosts later code hosts earlier code. -/
theorem Hosts.before {P : SymbolId → Prop} (h : A.Hosts all b') (hleads : b.Leads b')
    (hbinds : b.Binds P b') : A.Hosts all b :=
  ⟨h.completes.of_leads hleads, h.fits.of_binds hbinds⟩

theorem Hosts.before_same (h : A.Hosts all b') (hleads : b.Leads b')
    (hslots : b'.slots = b.slots) : A.Hosts all b :=
  h.before hleads (.of_same hleads.nextRegister_le hslots : b.Binds (fun _ => False) b')

/-- The code of the step follows the execution of a statement. -/
structure Executes (A : Activation Val State) (all : List (SymbolId × Register))
    (symbols : SymbolTable) (loop : Option LoopTargets) (x : Lower Unit)
    (E : Effect State (Outcome Val)) : Prop where
  extending : Lower.Extending loop x
  binds : Lower.Binds (symbols.isBinding ·) x
  follows : ∀ {b b' : Builder} {c : Config Val State}, x b = .ok ((), b') → b.Admits loop →
    A.Hosts all b' → A.Placed all b c →
    A.Follows 0 c (E c.state) (A.Exits all loop b.nextRegister b' c)

namespace Executes

variable {E : Effect State (Outcome Val)} {x : Lower Unit}

theorem refuse (span : Span) (problem : Problem) :
    A.Executes all symbols loop (Lower.refuse span problem) E :=
  ⟨.refuse span problem, .refuse span problem, fun h => absurd h Lower.refuse_ne_ok⟩

theorem pure : A.Executes all symbols loop (Pure.pure ()) (Pure.pure .next) := by
  refine ⟨.pure (), .pure (), ?_⟩
  intro b _ c hrun _ _ hplaced
  obtain ⟨-, rfl⟩ := hrun
  exact .pure ⟨hplaced, .refl c _⟩

theorem of_simulates {β : Type} {E : Effect State β} {R : Unit → β → Fact Val State}
    (h : A.Simulates all (.always True) x E R) (hbinds : ∀ P, Lower.Binds P x) :
    A.Executes all symbols loop x (E >>= fun _ => Pure.pure .next) := by
  refine ⟨h.advances.extending loop, hbinds _, ?_⟩
  intro b b' c hrun _ hhosts hplaced
  have hapart := hhosts.fits.apart_of_binds (hbinds _ hrun) hplaced.started
  refine (h.follows hrun hhosts.completes hapart hplaced trivial).bind ?_
  rintro r c' ⟨hplaced', hkeeps, -⟩
  exact .pure ⟨hplaced', hkeeps⟩

theorem ret {α β : Type} {x : Lower α} {E : Effect State β} {R : α → β → Fact Val State}
    {f : α → Option IR.Value} {g : β → Option Val} (h : A.Simulates all (.always True) x E R)
    (hbinds : ∀ P, Lower.Binds P x)
    (hfinish : ∀ {a r n c}, (R a r).holds n c →
      A.finish c (.ret (f a)) = some (.returned (g r) c.state)) :
    A.Executes all symbols loop (x >>= fun a => Lower.close (.ret (f a)))
      (E >>= fun r => Pure.pure (.ret (g r))) := by
  refine ⟨.bind h.advances fun a => .close rfl,
    (hbinds _).bind fun _ => Lower.Binds.uniform.close _, ?_⟩
  intro b b' c hrun hadmits hhosts hplaced
  obtain ⟨a, b1, hx, hclose⟩ := Lower.bind_eq_ok.mp hrun
  obtain ⟨-, hopen1⟩ := h.advances hplaced.isOpen hx
  obtain ⟨-, rfl⟩ := hclose
  have hext : b1.Extends (b1.withTerminator b1.current (.ret (f a))) :=
    (Builder.Extends.refl b1).terminator (.inl rfl) hopen1 (by simp [Terminator.targets])
  have hhosts1 := hhosts.before_same hext.leads rfl
  have hapart := hhosts1.fits.apart_of_binds (hbinds _ hx) hplaced.started
  refine (h.follows hx hhosts1.completes hapart hplaced trivial).bind ?_
  rintro r c1 ⟨hplaced1, -, hR⟩
  refine (hplaced1.ret (.withTerminator b1 _) hhosts.completes fun c' hkeeps => ?_).silent
    fun c' hc' => .pure hc'
  exact hfinish ((R a r).stable (Nat.le_refl _) hkeeps hR)

theorem loopJump {target : LoopTargets → BlockId} {span : Span} {o : Outcome Val}
    (htarget : ∀ t, target t = t.continueTarget ∨ target t = t.breakTarget)
    (ho : ∀ {t n b' c c'}, loop = some t → A.Arrived (target t) c' → c.Keeps n c' →
      A.Exits all loop n b' c o c') :
    A.Executes all symbols loop (Lowering.loopJump loop target span) (Pure.pure o) := by
  refine ⟨.loopJump htarget, Lower.Binds.uniform.loopJump _ _ _, ?_⟩
  intro b b' c hrun hadmits hhosts hplaced
  cases loop with
  | none => exact absurd hrun (Lower.refuse_ne_ok (b := b))
  | some t =>
    obtain ⟨-, rfl⟩ := hrun
    have hlt : target t < b.blocks.length := by
      rcases htarget t with heq | heq
      · exact heq ▸ (hadmits t rfl).1.1
      · exact heq ▸ (hadmits t rfl).2.1
    have hjump := hplaced.jump (.withTerminator b _) hhosts.completes (by simpa using hlt)
    refine hjump.weaken.silent ?_
    rintro c' ⟨harrived, hkeeps⟩
    exact .pure (ho rfl harrived hkeeps)

end Executes

/-! ### Bindings -/

theorem Placed.withVariable (h : A.Placed all b c) {symbol : SymbolId} {slot : Register}
    (hslot : b.Reserves slot) (hbound : (b.withVariable symbol slot).slots ⊆ all) :
    A.Placed all (b.withVariable symbol slot) c :=
  ⟨h.started.bound hslot, h.isOpen, hbound, h.block, h.code, h.slots⟩

theorem Placed.follows_initial (h : A.Placed all b c) {slot : Register} {a : Val}
    {initial : Option IR.Value} {value : Option Val}
    (hcompletes : A.Completes (b.withInitial slot initial))
    (hslot : c.registers slot = some (.value a))
    (hinitial : (Typed.Expr.standOption A initial value).holds n c) :
    A.Follows 0 c (A.machine.storeInitial a value c.state) fun _ c' =>
      A.Placed all (b.withInitial slot initial) c' ∧ ∀ n, c.Keeps n c' := by
  match initial, value, hinitial with
  | none, none, _ => exact .pure ⟨h, .refl c⟩
  | some v, some x, hv =>
    refine (h.follows_emit (f := fun c' _ => c') rfl hcompletes (fun code => ?_)
      fun _ _ => ⟨rfl, rfl, rfl, rfl⟩).mono ?_
    · have hvalue : A.value { c with code := code } v = some x := by
        rw [← value_of_stands hv]
        cases v <;> rfl
      have hword : A.word { c with code := code } (.register slot) = some (.value a) := hslot
      simp only [execute, hvalue, hword, Option.bind_eq_bind, Option.bind_some]
      rfl
    · rintro u _ ⟨hplaced, code, s, rfl⟩
      exact ⟨hplaced, fun n => .elsewhere c n code s⟩

theorem Executes.binding [Nonempty Val] (hlayout : A.Layout symbols cells all) {symbol : SymbolId}
    (hsymbol : symbols.isBinding symbol = true) {value : Option Typed.Expr}
    (hvalue : ∀ e, value = some e → e.WellTyped symbols) :
    A.Executes all symbols loop (Lowering.binding symbols symbol value) (do
      A.machine.storeInitial (cells symbol)
        (← Typed.Expr.evalOption A.machine symbols cells value)
      Pure.pure .next) := by
  refine ⟨.binding symbols symbol value, .binding value hsymbol, ?_⟩
  intro b b' c hrun _ hhosts hplaced
  obtain ⟨initial, b1, hoption, rfl⟩ := Lowering.binding_stages hrun
  have hsimulates := Typed.Expr.simulates_optionalValue hlayout hvalue
  obtain ⟨hext1, hopen1⟩ := hsimulates.advances (hplaced.isOpen.withSlot _) hoption
  have hbinds := Lower.Binds.closed (P := fun _ => False) |>.optionalValue symbols value hoption
  have hreserves := hext1.reserves (Builder.reserves_withSlot hplaced.entry_lt
    (symbols.symbolAt symbol).ty.shape)
  have hext2 := Builder.extends_withInitial hopen1 b.nextRegister initial
  have hcompletes2 : A.Completes (b1.withInitial b.nextRegister initial) :=
    hhosts.completes.of_extends ((Builder.Extends.refl _).bound (hext2.reserves hreserves))
  have hcompletes1 := hcompletes2.of_extends hext2
  -- The slot that is reserved first is that of the variable.
  have hcell : A.slotWord b.nextRegister = .value (cells symbol) := by
    rw [slotWord, hlayout.cell (symbol, b.nextRegister) (hhosts.fits.bound List.mem_cons_self)]
  have hapart : Builder.Apart all (b.withSlot (symbols.symbolAt symbol).ty.shape) b1 := by
    intro e he
    refine (hhosts.fits.rest e he).imp (fun hmem => ?_) fun hle => by simpa using hle
    rcases List.mem_cons.mp hmem with rfl | hmem
    · exact Nat.lt_succ_self _
    · rw [Builder.withInitial_slots, hbinds.slots_eq] at hmem
      exact Nat.lt_succ_of_lt (Builder.lt_of_mem_slots hplaced.started hmem)
  refine (hplaced.follows_reserve (hcompletes1.of_extends hext1)).silent ?_
  rintro c1 ⟨hplaced1, hkeeps1, hslot⟩
  refine (hsimulates.follows hoption hcompletes1 hapart hplaced1 trivial).bind ?_
  rintro r c2 ⟨hplaced2, hkeeps2, hinitial⟩
  have hslot2 : c2.registers b.nextRegister = some (.value (cells symbol)) := by
    rw [hkeeps2.registers _ (Nat.lt_succ_self _), hslot, hcell]
  refine (hplaced2.follows_initial hcompletes2 hslot2 hinitial).bind ?_
  rintro _ c3 ⟨hplaced3, hkeeps3⟩
  have hkeeps : c.Keeps b.nextRegister c3 :=
    (hkeeps1.trans hkeeps2 (Nat.le_succ _)).trans (hkeeps3 _) (Nat.le_refl _)
  exact .pure ⟨hplaced3.withVariable (hext2.reserves hreserves) hhosts.fits.bound, hkeeps⟩

/-! ### Conditionals -/

section Branches

theorem Placed.jump_joined {thenExit elseExit : BlockId} (h : A.Placed all b c)
    (hcloses : b.Closes (b1.joined thenExit elseExit) (.jump b1.blocks.length))
    (hopen : b1.OpenAt thenExit ∨ b1.OpenAt elseExit) (hthen : thenExit < b1.blocks.length)
    (helse : elseExit < b1.blocks.length) (hhosts : A.Hosts all (b1.joined thenExit elseExit))
    (hstarted : Builder.start.Extends b1) :
    A.Follows 0 c ((Pure.pure () : Effect State Unit) c.state) fun _ c' =>
      A.Placed all (b1.joined thenExit elseExit) c' ∧ c.Keeps b.nextRegister c' := by
  have hempty := Builder.emptyAt_joined hopen hthen helse
  have hcurrent : (b1.joined thenExit elseExit).current = b1.blocks.length := by
    rw [Builder.joined_of_openAt hopen]
    rfl
  have hlt := hempty.openAt.lt
  rw [hcurrent] at hlt
  refine (h.jump hcloses hhosts.completes hlt).weaken.mono ?_
  rintro _ c' ⟨harrived, hkeeps⟩
  rw [← hcurrent] at harrived
  exact ⟨harrived.placed hhosts.completes ((Builder.Leads.joined hthen helse).started hstarted)
    hhosts.fits.bound hempty, hkeeps⟩

variable {condition : Lower IR.Value} {C : Effect State Val} {value : IR.Value}

theorem Simulates.follows_branch {thenTarget elseTarget : BlockId}
    (h : A.Simulates all (.always True) condition C fun v y => A.stands v (.value y))
    (hrun : condition b = .ok (value, b1))
    (hcloses : b1.Closes b2 (.branch value thenTarget elseTarget)) (hleads : b1.Leads b2)
    (hcompletes : A.Completes b2) (hthen : thenTarget < b2.blocks.length)
    (helse : elseTarget < b2.blocks.length) (hapart : Builder.Apart all b b1)
    (hplaced : A.Placed all b c) :
    A.Follows 1 c ((C >>= A.machine.test) c.state) fun decision c' =>
      A.Arrived (if decision then thenTarget else elseTarget) c' ∧ c.Keeps b.nextRegister c' := by
  have hext := (h.advances hplaced.isOpen hrun).1
  have hcondition := h.follows hrun (hcompletes.of_leads hleads) hapart hplaced trivial
  refine hcondition.bind_add (k := 1) ?_
  rintro y c1 ⟨hplaced1, hkeeps1, hy⟩
  refine (hplaced1.branch hcloses hcompletes hthen helse fun c2 hkeeps2 => ?_).mono ?_
  · exact value_of_stands ((A.stands value (.value y)).stable (Nat.le_refl _) hkeeps2 hy)
  · rintro decision c2 ⟨harrived, hkeeps2⟩
    exact ⟨harrived, hkeeps1.trans hkeeps2 hext.nextRegister_le⟩

namespace Executes

variable {thenBody elseBody : Lower Unit} {E F : Effect State (Outcome Val)}

section

variable (hcond : A.Simulates all (.always True) condition C fun v y => A.stands v (.value y))
  (hbinds : ∀ P, Lower.Binds P condition) (hthen : A.Executes all symbols loop thenBody E)
include hcond hbinds hthen

/-- The condition decides. The first branch is executed in the block that was made for it, and then
the run gets to what comes after the conditional. -/
theorem follows_decision {label : String} (hplaced : A.Placed all b c)
    (hroute : Builder.Branches loop label value b b1 b2) (hrun1 : condition b = .ok (value, b1))
    (hrun2 : thenBody (b1.enterThen label value) = .ok ((), b2)) (hhosts2 : A.Hosts all b2)
    (hback : ∀ c', A.Placed all b2 c' →
      A.Follows 0 c' ((Pure.pure () : Effect State Unit) c'.state) fun _ c'' =>
        A.Placed all b' c'' ∧ c'.Keeps b2.nextRegister c'')
    (hother : ∀ c', A.Arrived (b1.blocks.length + 1) c' → c.Keeps b.nextRegister c' →
      A.Follows 0 c' (F c'.state) (A.Exits all loop b.nextRegister b' c)) :
    A.Follows 0 c (((C >>= A.machine.test) >>= fun decision => if decision then E else F) c.state)
      (A.Exits all loop b.nextRegister b' c) := by
  have hhostsF := hhosts2.before hroute.branch.leads (hthen.binds hrun2)
  have hhosts1 := hhostsF.before_same hroute.fork.leads rfl
  have hle := (hroute.condition.trans (hroute.fork.trans hroute.branch)).nextRegister_le
  refine Follows.bind (hcond.follows_branch hrun1 (.fork hroute.isOpen.lt _ _) hroute.fork.leads
    hhostsF.completes (by simp) (by simp)
    (hhosts1.fits.apart_of_binds (hbinds _ hrun1) hplaced.started) hplaced).weaken ?_
  rintro decision c1 ⟨harrived, hkeeps⟩
  cases decision with
  | false => exact hother c1 harrived hkeeps
  | true =>
    have hplaced1 : A.Placed all (b1.enterThen label value) c1 :=
      harrived.placed hhostsF.completes (hroute.started hplaced.started) hhostsF.fits.bound
        (Builder.emptyAt_fork_fst hroute.isOpen.lt _ _)
    exact (hthen.follows hrun2 hroute.admits hhosts2 hplaced1).exits_silent hkeeps
      hroute.condition.nextRegister_le hle hback

theorem ifThen :
    A.Executes all symbols loop (Lowering.ifThen condition thenBody)
      ((C >>= A.machine.test) >>= fun decision => if decision then E else Pure.pure .next) := by
  refine ⟨.ifThen hcond.advances hthen.extending,
    Lower.Binds.uniform.ifThen (hbinds _) hthen.binds, ?_⟩
  intro b b' c hrun hadmits hhosts hplaced
  obtain ⟨value, b1, b2, hrun1, hrun2, rfl⟩ := Lowering.ifThen_stages hrun
  have hroute := Builder.branches hplaced.isOpen hadmits hcond.advances hthen.extending hrun1 hrun2
  have hstarted := (hroute.started hplaced.started).trans hroute.branch
  -- Both ways lead to the block after the conditional.
  have hafter : ∀ {c'}, A.Arrived (b1.blocks.length + 1) c' →
      A.Placed all (b2.resumeAt (b1.blocks.length + 1)) c' := fun harrived =>
    harrived.placed hhosts.completes (hroute.resume.started hstarted)
      hhosts.fits.bound (hroute.emptyAt.fallingFrom hroute.branch.current_ne_fork _)
  refine follows_decision hcond hbinds hthen hplaced hroute hrun1 hrun2
    (hhosts.before_same hroute.resume (by simp)) (fun c2 hplaced2 => ?_)
    fun c' harrived hkeeps => .pure ⟨hafter harrived, hkeeps⟩
  have hjump := hplaced2.jump (.resumeAt hplaced2.isOpen _) hhosts.completes
    (by simpa using hroute.emptyAt.openAt.lt)
  exact hjump.weaken.mono fun _ _ hc3 => ⟨hafter hc3.1, hc3.2⟩

theorem ifThenElse (helse : A.Executes all symbols loop elseBody F) :
    A.Executes all symbols loop (Lowering.ifThenElse condition thenBody elseBody)
      ((C >>= A.machine.test) >>= fun decision => if decision then E else F) := by
  refine ⟨.ifThenElse hcond.advances hthen.extending helse.extending,
    Lower.Binds.uniform.ifThenElse (hbinds _) hthen.binds helse.binds, ?_⟩
  intro b b' c hrun hadmits hhosts hplaced
  obtain ⟨value, b1, b2, _, hrun1, hrun2, hrun3, rfl⟩ := Lowering.ifThenElse_stages hrun
  have hroute := (Builder.branches hplaced.isOpen hadmits hcond.advances hthen.extending
    hrun1 hrun2).joins helse.extending hrun3
  have hapart := hroute.branch.current_ne_fork
  have hhosts3 := hhosts.before_same hroute.join (by simp)
  have hhostsM := hhosts3.before hroute.other.leads (helse.binds hrun3)
  have hstartedM := hroute.move.started ((hroute.started hplaced.started).trans hroute.branch)
  have hle := (hroute.condition.trans (hroute.fork.trans hroute.branch)).nextRegister_le
  refine follows_decision hcond hbinds hthen hplaced hroute.toBranches hrun1 hrun2
    (hhostsM.before_same hroute.move rfl) (fun c2 hplaced2 => ?_) fun c1 harrived hkeeps => ?_
  · exact hplaced2.jump_joined
      (.joined_then hplaced2.isOpen hapart hroute.other hroute.exits_ne)
      (.inl (hroute.other.openAt hplaced2.isOpen hapart)) hroute.thenExit_lt hroute.elseExit_lt
      hhosts (hstartedM.trans hroute.other)
  · -- The `else` branch starts in the other block of the fork, which is still empty.
    have hplaced1 : A.Placed all (b2.movedTo (b1.blocks.length + 1)) c1 :=
      harrived.placed hhostsM.completes hstartedM hhostsM.fits.bound hroute.emptyAt
    refine (helse.follows hrun3 hroute.admitsElse hhosts3 hplaced1).exits_silent hkeeps hle
      (Nat.le_trans hle hroute.other.nextRegister_le) fun c2 hplaced2 => ?_
    exact hplaced2.jump_joined (.joined_else hplaced2.isOpen hroute.exits_ne.symm)
      (.inr hplaced2.isOpen) hroute.thenExit_lt hroute.elseExit_lt hhosts hplaced2.started

end

end Executes

/-! ### Loops -/

variable {E : Effect State (Outcome Val)}

theorem Follows.iteration {D : Effect State Bool} (targets : LoopTargets) {bodyBlock : BlockId}
    (hcond : A.Follows 1 c1 (D c1.state) fun decision c' =>
      A.Arrived (if decision then bodyBlock else targets.breakTarget) c' ∧ c1.Keeps m c')
    (hkeeps : c.Keeps n c1) (hle : n ≤ m)
    (hbody : ∀ c', A.Arrived bodyBlock c' →
      A.Follows 0 c' (E c'.state) (A.Exits all (some targets) m b1 c'))
    (hback : ∀ c', A.Placed all b1 c' →
      A.Follows 0 c' ((Pure.pure () : Effect State Unit) c'.state) fun _ c'' =>
        A.Arrived targets.continueTarget c'' ∧ c'.Keeps m c'')
    (hend : ∀ c', A.Arrived targets.breakTarget c' → A.Placed all b2 c') :
    A.Follows 1 c1 (Effect.iteration D E c1.state) (Iterated (A.Exits all loop n b2 c)
      fun c' => A.Arrived targets.continueTarget c' ∧ c.Keeps n c') := by
  refine hcond.bind_add (k := 0) ?_
  rintro decision c2 ⟨harrived, hkeeps2⟩
  have hkeeps' := hkeeps.trans hkeeps2 hle
  cases decision with
  | false => exact .pure ⟨hend c2 harrived, hkeeps'⟩
  | true =>
    refine (hbody c2 harrived).bind fun o c3 ho => ?_
    replace ho := ho.of_keeps hkeeps' hle
    cases o with
    | next =>
      refine (hback c3 ho.1).silent ?_
      rintro c4 ⟨harrived4, hkeeps4⟩
      exact .pure ⟨harrived4, ho.2.trans hkeeps4 hle⟩
    | continueLoop =>
      obtain ⟨_, ⟨⟩, harrived3, hkeeps3⟩ := ho
      exact .pure ⟨harrived3, hkeeps3⟩
    | breakLoop =>
      obtain ⟨_, ⟨⟩, harrived3, hkeeps3⟩ := ho
      exact .pure ⟨hend c3 harrived3, hkeeps3⟩
    | ret _ => exact .pure ho

theorem Executes.whileLoop {body : LoopTargets → Lower Unit}
    (hcond : A.Simulates all (.always True) condition C fun v y => A.stands v (.value y))
    (hbinds : ∀ P, Lower.Binds P condition)
    (hbody : ∀ targets, A.Executes all symbols (some targets) (body targets) E) :
    A.Executes all symbols loop (Lowering.loop condition body)
      (Effect.loop (.iteration (C >>= A.machine.test) E)) := by
  refine ⟨.whileLoop hcond.advances fun t => (hbody t).extending,
    Lower.Binds.uniform.loop (hbinds _) fun t => (hbody t).binds, ?_⟩
  intro b b' c hrun hadmits hhosts hplaced
  obtain ⟨value, b1, b2, hrun1, hrun2, rfl⟩ := Lowering.loop_stages hrun
  have hroute := Builder.circles hplaced.isOpen hcond.advances (fun t => (hbody t).extending)
    hrun1 hrun2
  have hempty := Builder.emptyAt_enterLoop hplaced.isOpen (n := 0) (by decide)
  have hhosts2 := hhosts.before_same hroute.leave (by simp)
  have hhostsB := hhosts2.before hroute.body.leads ((hbody _).binds hrun2)
  have hhosts1 := hhostsB.before_same hroute.branch rfl
  have hhostsE := hhosts1.before hroute.condition.leads (hbinds (fun _ => False) hrun1)
  have hstartedE := hplaced.started.trans hroute.enter
  have hstartedB := hroute.branch.started (hstartedE.trans hroute.condition)
  have hstarted' := hroute.leave.started (hstartedB.trans hroute.body)
  have hle : b.nextRegister ≤ b1.nextRegister := by simpa using hroute.condition.nextRegister_le
  -- The run is at the condition before every iteration.
  refine (hplaced.jump (.enterLoop hplaced.isOpen) hhostsE.completes
    hempty.openAt.lt).weaken.silent ?_
  refine fun c1 hc1 => Follows.loop (I := fun c' => A.Arrived b.loopTargets.continueTarget c' ∧
    c.Keeps b.nextRegister c') ?_ hc1
  rintro c2 ⟨harrived, hkeeps⟩
  have hplaced2 : A.Placed all b.enterLoop c2 :=
    harrived.placed hhostsE.completes hstartedE hhostsE.fits.bound hempty
  have hbranch := hcond.follows_branch hrun1 .enterBody hroute.branch hhostsB.completes
    hroute.emptyBody.openAt.lt hroute.emptyEnd.openAt.lt
    (hhosts1.fits.apart_of_binds (hbinds _ hrun1) hstartedE) hplaced2
  rw [Builder.enterLoop_nextRegister] at hbranch
  have hbodyRun : ∀ c', A.Arrived (b.blocks.length + 1) c' → A.Follows 0 c' (E c'.state)
      (A.Exits all (some b.loopTargets) b.nextRegister b2 c') := by
    intro c' harrived'
    have hplaced' : A.Placed all (b1.enterBody b.blocks.length value) c' :=
      harrived'.placed hhostsB.completes hstartedB hhostsB.fits.bound hroute.emptyBody
    exact ((hbody _).follows hrun2 hroute.admits hhosts2 hplaced').mono fun o c'' ho =>
      ho.of_keeps (.refl c' _) hle
  refine hbranch.iteration b.loopTargets hkeeps (Nat.le_refl _) hbodyRun ?_ ?_
  · intro c' hplaced'
    have hjump := hplaced'.jump (.leaveLoop hplaced'.isOpen) hhosts.completes
      (Nat.lt_of_le_of_lt (Nat.le_add_right _ 2) hroute.emptyAfter.openAt.lt)
    refine hjump.weaken.mono ?_
    rintro _ c'' ⟨harrived'', hkeeps''⟩
    exact ⟨harrived'', hkeeps''.mono (Nat.le_trans hle hroute.body.nextRegister_le)⟩
  · intro c' harrived'
    exact Arrived.placed harrived' hhosts.completes hstarted' hhosts.fits.bound hroute.emptyAfter

end Branches

/-! ### Blocks -/

theorem Executes.lowerBlock_cons {stmt : Typed.Stmt} {rest : List Typed.Stmt}
    {F : Effect State (Outcome Val)}
    (hstmt : A.Executes all symbols loop (stmt.lower symbols loop) E)
    (hrest : A.Executes all symbols loop (Typed.Stmt.lowerBlock symbols loop rest) F) :
    A.Executes all symbols loop (Typed.Stmt.lowerBlock symbols loop (stmt :: rest)) (do
      match ← E with
      | .next => F
      | outcome => Pure.pure outcome) := by
  refine ⟨Typed.Stmt.extending_lowerBlock symbols loop _,
    Lower.Binds.uniform.lowerBlock_cons hstmt.binds hrest.binds,
    ?_⟩
  intro b b' c hrun hadmits hhosts hplaced
  obtain ⟨_, hrun1, hrun2⟩ := Typed.Stmt.lowerBlock_cons_stages hplaced.isOpen hrun
  have hext1 := hstmt.extending hplaced.isOpen hadmits hrun1
  have hadmits1 := hadmits.mono hext1.length_le
  have hext2 := Typed.Stmt.extends_of_lowerBlock hrest.extending
    (hext1.current_lt hplaced.isOpen.lt) hadmits1 hrun2
  have hhosts1 := hhosts.before hext2.leads (hrest.binds hrun2)
  refine (hstmt.follows hrun1 hadmits hhosts1 hplaced).exits (.refl c _) (Nat.le_refl _) ?_ ?_
  · intro o ho
    cases o with
    | next => exact absurd rfl ho
    | _ => rfl
  · intro c1 hplaced1 hkeeps
    exact (hrest.follows hrun2 hadmits1 hhosts hplaced1).mono fun o c2 ho =>
      ho.of_keeps hkeeps hext1.nextRegister_le

end Activation

theorem Activation.Simulates.store (ptr v : IR.Value) (a y : Val) :
    A.Simulates all ((A.stands v (.value y)).and (A.stands ptr (.value a)))
      (Lower.emit (.store ptr v)) (A.machine.store a y) fun _ _ => .always True := by
  refine .emit rfl fun h => ?_
  simp only [Activation.execute, Activation.value_of_stands h.1, h.2.2, Option.bind_eq_bind,
    Option.bind_some]

theorem Typed.Expr.finish_of_standOption {value : Option IR.Value} {y : Option Val}
    (h : (standOption A value y).holds n c) :
    A.finish c (.ret value) = some (.returned y c.state) := by
  match value, y, h with
  | none, none, _ => rfl
  | some v, some y, hv =>
    simp only [Activation.finish, Activation.value_of_stands hv, Option.bind_eq_bind,
      Option.bind_some]

namespace Typed.Stmt

open Activation (Executes Simulates)

variable {returnType : Laye.Ty}

mutual

/-- The code of a well-typed statement follows its execution. -/
theorem executes_lower [Nonempty Val] (hlayout : A.Layout symbols cells all)
    (loop : Option LoopTargets) : (s : Stmt) → {inLoop : Bool} →
      s.WellTyped symbols returnType inLoop →
      A.Executes all symbols loop (s.lower symbols loop) (s.exec A.machine symbols cells)
  | .block stmts _, _, h => by
    have hstmts := by cases h; assumption
    exact executes_lowerBlock hlayout loop stmts hstmts
  | .binding symbol value _, _, h => by
    cases h with
    | binding _ hsymbol hkind _ hvalue =>
      exact .binding hlayout (SymbolTable.isBinding_of_getElem? hsymbol hkind) fun e he =>
        (hvalue e he).1
  | .expression value, _, h => by
    have hvalue : value.WellTyped symbols := by cases h; assumption
    have hsimulates := (Expr.simulates_lowerValue hlayout hvalue).bind
      (f := fun _ => pure ()) (F := fun _ => pure ()) (S := fun _ _ => .always True)
      fun _ _ => .pure fun _ _ _ => trivial
    have hexecutes : A.Executes all symbols loop _ _ := .of_simulates hsimulates fun P =>
      (Lower.Binds.closed.lowerValue symbols value).bind fun _ => .pure _
    unfold lower exec
    simpa only [bind_assoc, pure_bind] using hexecutes
  | .ret value _, _, h => by
    have hvalue : Expr.Returns symbols returnType value := by cases h; assumption
    unfold lower exec
    refine .ret (Expr.simulates_optionalValue hlayout ?_)
      (fun _ => Lower.Binds.closed.optionalValue symbols value)
      Expr.finish_of_standOption
    rintro e rfl
    exact hvalue.2.1
  | .assign target value _, _, h => by
    cases h with
    | assign _ htarget hplace _ hvalue _ =>
      have haddress := Expr.simulates_lowerAddress hlayout htarget hplace
      have hsimulates := haddress.bind fun ptr a =>
        ((Expr.simulates_lowerValue hlayout hvalue).after _).bind fun v y =>
          Simulates.store ptr v a y
      have hexecutes : A.Executes all symbols loop _ _ := .of_simulates hsimulates fun P =>
        (Lower.Binds.closed.lowerAddress symbols target).bind fun _ =>
          (Lower.Binds.closed.lowerValue symbols value).bind fun _ => .emit _
      unfold lower exec
      simpa only [bind_assoc] using hexecutes
  | .conditional condition thenBody none _, _, h => by
    cases h with
    | conditional _ hcondition _ hthen _ =>
      have hexecutes := Executes.ifThen (Expr.simulates_lowerValue hlayout hcondition)
        (fun _ => Lower.Binds.closed.lowerValue symbols condition)
        (executes_lower hlayout loop thenBody hthen)
      unfold lower exec
      simpa only [bind_assoc] using hexecutes
  | .conditional condition thenBody (some elseBody) _, _, h => by
    cases h with
    | conditional _ hcondition _ hthen helse =>
      have hexecutes := Executes.ifThenElse (Expr.simulates_lowerValue hlayout hcondition)
        (fun _ => Lower.Binds.closed.lowerValue symbols condition)
        (executes_lower hlayout loop thenBody hthen)
        (executes_lower hlayout loop elseBody (helse elseBody rfl))
      unfold lower exec
      simpa only [bind_assoc] using hexecutes
  | .whileLoop condition body none _, _, h => by
    cases h with
    | whileLoop _ hcondition _ hbody _ =>
      unfold lower exec
      exact .whileLoop (Expr.simulates_lowerValue hlayout hcondition)
        (fun _ => Lower.Binds.closed.lowerValue symbols condition) fun targets =>
          executes_lower hlayout (some targets) body hbody
  | .whileLoop _ _ (some _) _, _, _ => by
    unfold lower
    exact .refuse _ _
  | .breakLoop _, _, _ => by
    unfold lower exec
    exact .loopJump (fun _ => Or.inr rfl) fun hloop harrived hkeeps =>
      ⟨_, hloop, harrived, hkeeps⟩
  | .continueLoop _, _, _ => by
    unfold lower exec
    exact .loopJump (fun _ => Or.inl rfl) fun hloop harrived hkeeps =>
      ⟨_, hloop, harrived, hkeeps⟩
  | .yield _ _, _, _ => by
    unfold lower
    exact .refuse _ _
  | .deadCode _ _, _, _ => by
    unfold lower exec
    exact .pure

theorem executes_lowerBlock [Nonempty Val] (hlayout : A.Layout symbols cells all)
    (loop : Option LoopTargets) : (stmts : List Stmt) → {inLoop : Bool} →
      (∀ stmt ∈ stmts, stmt.WellTyped symbols returnType inLoop) →
      A.Executes all symbols loop (lowerBlock symbols loop stmts)
        (execAll A.machine symbols cells stmts)
  | [], _, _ => by
    exact .pure
  | stmt :: rest, _, h => by
    have hstmt := executes_lower hlayout loop stmt (h stmt (by simp))
    have hrest := executes_lowerBlock hlayout loop rest fun s hs => h s (by simp [hs])
    exact .lowerBlock_cons hstmt hrest

end

end Typed.Stmt

end Laye
