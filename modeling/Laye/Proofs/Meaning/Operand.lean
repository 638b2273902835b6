import Laye.Proofs.Meaning.Placement

/-!
# The code of expressions follows their evaluation

`Activation.Simulates` says that the code of a step of lowering follows an effect: it relies on a
fact and leaves one. There is a rule for each step, and `Typed.Expr.simulates_lower` puts them
together by induction on the tree.

What an operand stands for is the fact `Activation.gives`. A value of the tree may be found in a
place of the code: code puts a value that it needs the address of into a private slot, and then
works with addresses into that slot, where the tree has a part of the value.
-/

namespace Laye

open IR

variable {Val State : Type} {A : Activation Val State} {all : List (SymbolId × Register)}
  {α β γ δ : Type}

/-! ### What is known of operands -/

namespace Fact

/-- What is known for some choice. -/
def ex {ι : Type} (P : ι → Fact Val State) : Fact Val State :=
  ⟨fun n c => ∃ i, (P i).holds n c, fun hle hkeeps ⟨i, h⟩ => ⟨i, (P i).stable hle hkeeps h⟩⟩

/-- A private slot holds a value. -/
def stored (r : Register) (x : Val) : Fact Val State :=
  ⟨fun n c => r < n ∧ c.slots r = some x, fun hle hkeeps h =>
    ⟨Nat.lt_of_lt_of_le h.1 hle, (hkeeps.slots r h.1).trans h.2⟩⟩

end Fact

namespace Activation

variable {c : Config Val State} {n : Register}

theorem word_eq {c' : Config Val State} {v : IR.Value} (hbelow : ∀ r, v.register? = some r → r < n)
    (h : ∀ r, r < n → c'.registers r = c.registers r) : A.word c' v = A.word c v := by
  cases v with
  | register r => exact h r (hbelow r rfl)
  | _ => rfl

/-- An operand of an instruction stands for a word. -/
def stands (A : Activation Val State) (v : IR.Value) (w : Word Val) : Fact Val State where
  holds n c := (∀ r, v.register? = some r → r < n) ∧ A.word c v = some w
  stable hle hkeeps h :=
    ⟨fun r hr => Nat.lt_of_lt_of_le (h.1 r hr) hle, (word_eq h.1 hkeeps.registers).trans h.2⟩

theorem value_of_stands {v : IR.Value} {x : Val} (h : (A.stands v (.value x)).holds n c) :
    A.value c v = some x := by
  simp [value, h.2, Word.value?]

def standAll (A : Activation Val State) : List IR.Value → List Val → Fact Val State
  | [], [] => .always True
  | v :: vs, x :: xs => (A.stands v (.value x)).and (A.standAll vs xs)
  | _, _ => .always False

/-- Arguments that stand for values are read as these values. -/
theorem mapM_of_standAll {vs : List IR.Value} {xs : List Val} (h : (A.standAll vs xs).holds n c) :
    vs.mapM (A.value c) = some xs := by
  induction vs generalizing xs with
  | nil =>
    cases xs with
    | nil => rfl
    | cons x _ => exact h.elim
  | cons v _ ih =>
    cases xs with
    | nil => exact h.elim
    | cons x _ => simp [List.mapM_cons, value_of_stands h.1, ih h.2]

/-- What the code of an expression leaves stands for its result. -/
def gives (A : Activation Val State) : Operand → Result Val → Fact Val State
  | .value v, .value x => A.stands v (.value x)
  | .place v, .place a => A.stands v (.value a)
  | .place v, .value x => .ex fun (part : Register × List (Projection Val) × Val) =>
    ((A.stands v (.slot part.1 part.2.1)).and (.stored part.1 part.2.2)).and
      (.always (A.machine.projectAll part.2.1 part.2.2 = x))
  | .value _, .place _ => .always False

/-- Which stack slots of the function are the cells of variables, and that the others are
private. -/
structure Layout (A : Activation Val State) (symbols : SymbolTable) (cells : SymbolId → Val)
    (all : List (SymbolId × Register)) : Prop where
  cell : ∀ e ∈ all, A.cellOf e.2 = some (cells e.1)
  temporary : ∀ r, (∀ e ∈ all, e.2 ≠ r) → A.cellOf r = none
  binding : ∀ e ∈ all, symbols.isBinding e.1 = true

end Activation

/-- No variable has its slot in a register that was first used between the two builders. -/
def Builder.Apart (all : List (SymbolId × Register)) (b b' : Builder) : Prop :=
  ∀ e ∈ all, e.2 < b.nextRegister ∨ b'.nextRegister ≤ e.2

theorem Builder.Apart.mono {b0 b b' b1 : Builder} (h : Apart all b0 b1)
    (hle : b0.nextRegister ≤ b.nextRegister) (hle' : b'.nextRegister ≤ b1.nextRegister) :
    Apart all b b' :=
  fun e he => (h e he).imp (fun hlt => Nat.lt_of_lt_of_le hlt hle) (Nat.le_trans hle')

/-- A slot reserved in between is private, for it belongs to no variable. -/
theorem Activation.Layout.slotWord_of_apart {symbols : SymbolTable} {cells : SymbolId → Val}
    (h : A.Layout symbols cells all) {b b' : Builder} (hapart : Builder.Apart all b b')
    {r : Register} (hle : b.nextRegister ≤ r) (hlt : r < b'.nextRegister) :
    A.slotWord r = .slot r [] := by
  have hcell : A.cellOf r = none := by
    refine h.temporary r fun e he heq => ?_
    rcases hapart e he with hbelow | habove
    · exact absurd (heq ▸ hbelow) (Nat.not_lt_of_le hle)
    · exact absurd (heq ▸ habove) (Nat.not_le_of_lt hlt)
  rw [Activation.slotWord, hcell]

/-! ### Steps that follow effects -/

namespace Activation

/-- The code of the step follows the effect. It relies on `P`, and leaves `R`. -/
structure Simulates (A : Activation Val State) (all : List (SymbolId × Register))
    (P : Fact Val State) (x : Lower α) (E : Effect State β) (R : α → β → Fact Val State) :
    Prop where
  advances : Lower.Advances x
  follows : ∀ {b : Builder} {a : α} {b' : Builder} {c : Config Val State}, x b = .ok (a, b') →
    A.Completes b' → Builder.Apart all b b' → A.Placed all b c → P.holds b.nextRegister c →
    A.Follows 0 c (E c.state) fun r c' =>
      A.Placed all b' c' ∧ c.Keeps b.nextRegister c' ∧ (R a r).holds b'.nextRegister c'

namespace Simulates

variable {P Q : Fact Val State} {R : α → β → Fact Val State} {x : Lower α} {E : Effect State β}

theorem pure {a : α} {r : β} (h : ∀ n c, P.holds n c → (R a r).holds n c) :
    A.Simulates all P (Pure.pure a) (Pure.pure r : Effect State β) R := by
  refine ⟨.pure a, ?_⟩
  intro b _ _ c hrun _ _ hplaced hP
  obtain ⟨rfl, rfl⟩ := hrun
  exact .pure ⟨hplaced, .refl c _, h _ _ hP⟩

variable {f : α → Lower γ} {S : γ → δ → Fact Val State} {i : Register → Instruction}
  {symbols : SymbolTable} {cells : SymbolId → Val} {lowered : Lower Operand}

/-- Steps that follow effects follow them one after another. -/
theorem bind [Nonempty β] {F : β → Effect State δ} (hx : A.Simulates all P x E R)
    (hf : ∀ a r, A.Simulates all (R a r) (f a) (F r) S) :
    A.Simulates all P (x >>= f) (E >>= F) S := by
  have hadvances : ∀ a, Lower.Advances (f a) := fun a => (hf a (Classical.arbitrary β)).advances
  refine ⟨hx.advances.bind hadvances, ?_⟩
  intro b a b'' c hrun hcompletes hapart hplaced hP
  obtain ⟨a', _, hfirst, hrest⟩ := Lower.bind_eq_ok.mp hrun
  obtain ⟨hext, hopen⟩ := hx.advances hplaced.isOpen hfirst
  obtain ⟨hext', -⟩ := hadvances a' hopen hrest
  refine (hx.follows hfirst (hcompletes.of_extends hext')
    (hapart.mono (Nat.le_refl _) hext'.nextRegister_le) hplaced hP).bind ?_
  rintro r c' ⟨hplaced', hkeeps, hR⟩
  refine ((hf a' r).follows hrest hcompletes (hapart.mono hext.nextRegister_le (Nat.le_refl _))
    hplaced' hR).mono ?_
  rintro s c'' ⟨hplaced'', hkeeps', hS⟩
  exact ⟨hplaced'', hkeeps.trans hkeeps' hext.nextRegister_le, hS⟩

/-- A step keeps all facts that it does not speak of. -/
theorem frame (h : A.Simulates all P x E R) (Q : Fact Val State) :
    A.Simulates all (P.and Q) x E fun a r => (R a r).and Q := by
  refine ⟨h.advances, ?_⟩
  intro b a b' c hrun hcompletes hapart hplaced hPQ
  have hext := (h.advances hplaced.isOpen hrun).1
  refine (h.follows hrun hcompletes hapart hplaced hPQ.1).mono ?_
  rintro r c' ⟨hplaced', hkeeps, hR⟩
  exact ⟨hplaced', hkeeps, hR, Q.stable hext.nextRegister_le hkeeps hPQ.2⟩

theorem weaken (h : A.Simulates all Q x E R) (hP : ∀ n c, P.holds n c → Q.holds n c) :
    A.Simulates all P x E R :=
  ⟨h.advances, fun hrun hcompletes hapart hplaced hp =>
    h.follows hrun hcompletes hapart hplaced (hP _ _ hp)⟩

theorem after (h : A.Simulates all (.always True) x E R) (Q : Fact Val State) :
    A.Simulates all Q x E fun a r => (R a r).and Q :=
  (h.frame Q).weaken fun _ _ hQ => ⟨trivial, hQ⟩

/-- What holds of all results of the effect is known after the step. -/
theorem know (h : A.Simulates all P x E R) {T : β → Prop}
    (hT : ∀ s r s', E s = some (r, s') → T r) :
    A.Simulates all P x E fun a r => (R a r).and (.always (T r)) := by
  refine ⟨h.advances, ?_⟩
  intro b a b' c hrun hcompletes hapart hplaced hP
  have hfollows := h.follows hrun hcompletes hapart hplaced hP
  match hE : E c.state, hfollows with
  | none, hnot => exact hnot
  | some (r, s), ⟨n, c', hn, hsteps, hstate, hplaced', hkeeps, hR⟩ =>
    exact ⟨n, c', hn, hsteps, hstate, hplaced', hkeeps, hR, hT _ _ _ hE⟩

theorem of_false (hadvances : Lower.Advances x) (hP : ∀ n c, ¬ P.holds n c) :
    A.Simulates all P x E R :=
  ⟨hadvances, fun _ _ _ _ hp => absurd hp (hP _ _)⟩

theorem of_ex {ι : Type} {P : ι → Fact Val State} (hadvances : Lower.Advances x)
    (h : ∀ i, A.Simulates all (P i) x E R) : A.Simulates all (.ex P) x E R := by
  refine ⟨hadvances, ?_⟩
  rintro b a b' c hrun hcompletes hapart hplaced ⟨i, hi⟩
  exact (h i).follows hrun hcompletes hapart hplaced hi

/-- An instruction that computes a word leaves it in its register. -/
theorem define {w : β → Word Val} (hdest : ∀ r, (i r).dest? = some r)
    (hcode : ∀ r, (i r).isAlloca = false)
    (hexec : ∀ {n c} (r), P.holds n c →
      A.execute c (i r) = c.perform E fun c' a => c'.define r (w a)) :
    A.Simulates all P (Lower.define i) E fun v a => A.stands v (w a) := by
  refine ⟨.define hdest hcode, ?_⟩
  intro b v _ c hrun hcompletes _ hplaced hP
  obtain ⟨rfl, rfl⟩ := hrun
  refine (hplaced.follows_define hdest hcode hcompletes (w := w) fun code => ?_).mono ?_
  · exact hexec _ (P.stable (Nat.le_refl _) (.elsewhere c _ code c.state) hP)
  · rintro a c' ⟨hplaced', hkeeps, hword⟩
    refine ⟨hplaced', hkeeps, ?_, hword⟩
    intro r hr
    cases hr
    exact Nat.lt_succ_self _

theorem emit {i : Instruction} (hdest : i.dest? = none)
    (hexec : ∀ {n c}, P.holds n c → A.execute c i = c.perform E fun c' _ => c') :
    A.Simulates all P (Lower.emit i) E fun _ _ => .always True := by
  refine ⟨.emit hdest, ?_⟩
  intro b u _ c hrun hcompletes _ hplaced hP
  obtain ⟨-, rfl⟩ := hrun
  refine (hplaced.follows_emit hdest hcompletes (f := fun c' _ => c') (fun code => ?_)
    fun _ _ => ⟨rfl, rfl, rfl, rfl⟩).mono ?_
  · exact hexec (P.stable (Nat.le_refl _) (.elsewhere c _ code c.state) hP)
  · rintro a _ ⟨hplaced', code, s, rfl⟩
    exact ⟨hplaced', .elsewhere c _ code s, trivial⟩

theorem bind_silent {F : Effect State δ} {Q : α → Fact Val State}
    (hx : A.Simulates all P x (Pure.pure () : Effect State Unit) fun a _ => Q a)
    (hf : ∀ a, A.Simulates all (Q a) (f a) F S) : A.Simulates all P (x >>= f) F S := by
  have h := hx.bind (F := fun _ => F) fun a _ => hf a
  rwa [pure_bind] at h

theorem map [Nonempty β] {g : β → δ} {S : α → δ → Fact Val State} (h : A.Simulates all P x E R)
    (hS : ∀ a r n c, (R a r).holds n c → (S a (g r)).holds n c) :
    A.Simulates all P x (E >>= fun r => Pure.pure (g r)) S := by
  have hboth := h.bind (f := Pure.pure) (F := fun r => Pure.pure (g r)) (S := S) fun a r =>
    .pure (hS a r)
  rwa [bind_pure] at hboth

theorem refuse (span : Span) (problem : Problem) :
    A.Simulates all P (Lower.refuse span problem) E R :=
  ⟨.refuse span problem, fun hrun => absurd hrun Lower.refuse_ne_ok⟩

/-! ### Operands -/

/-- The code of a name stands for the cell of the variable, or for the function. -/
theorem symbol (hlayout : A.Layout symbols cells all) (id : SymbolId) (span : Span) :
    A.Simulates all P (Lowering.symbol symbols id span)
      (if (symbols.symbolAt id).kind = .function then
        Pure.pure (.value (A.machine.global (symbols.symbolAt id).name))
      else Pure.pure (.place (cells id)) : Effect State (Result Val)) A.gives := by
  refine ⟨.symbol symbols id span, ?_⟩
  intro b op b' c hrun _ _ hplaced _
  obtain ⟨rfl, ⟨slot, hslot, rfl⟩ | ⟨-, hkind, rfl⟩⟩ := Lowering.symbol_stages hrun
  · have hmem : (id, slot) ∈ b'.slots := by
      obtain ⟨_, _, hslots, -⟩ := List.lookup_eq_some_iff.mp hslot
      simp [hslots]
    have hreserves : b'.Reserves slot := Builder.reserves_of_mem_slots hplaced.started hmem
    have hkind : (symbols.symbolAt id).kind ≠ .function := by
      have hbinding := hlayout.binding _ (hplaced.bound hmem)
      intro heq
      simp [SymbolTable.isBinding, heq] at hbinding
    rw [if_neg hkind]
    refine .pure ⟨hplaced, .refl c _, ?_, ?_⟩
    · intro r hr
      cases hr
      exact hreserves.lt hplaced.started
    · rw [word, hplaced.slots slot (.inl hreserves), slotWord,
        hlayout.cell _ (hplaced.bound hmem)]
  · rw [if_pos hkind]
    refine .pure ⟨hplaced, .refl c _, ?_, rfl⟩
    intro r hr
    cases hr

/-- Loading an operand leaves the value that it stands for. -/
theorem load (ty : Laye.Ty) (op : Operand) (r : Result Val) :
    A.Simulates all (A.gives op r) (op.load ty) (r.load A.machine ty)
      fun v y => A.stands v (.value y) := by
  cases op with
  | value v =>
    cases r with
    | value y => exact .pure fun _ _ h => h
    | place a => exact of_false (Lower.Advances.closed.load ty _) fun _ _ h => h
  | place v =>
    cases r with
    | place a =>
      refine .define (fun _ => rfl) (fun _ => rfl) fun r h => ?_
      rw [execute, h.2, Result.load, Ty.held_eq_shape]
      rfl
    | value y =>
      refine of_ex (Lower.Advances.closed.load ty _) fun part => ?_
      refine define (E := Pure.pure y) (fun _ => rfl) (fun _ => rfl) fun r h => ?_
      obtain ⟨⟨hword, hstored⟩, hpart⟩ := h
      simp only [execute, hword.2, hstored.2, Option.bind_eq_bind, Option.bind_some]
      rw [hpart]
      rfl

/-- A value that is put into a private slot is in place there. -/
theorem spill (hlayout : A.Layout symbols cells all) (ty : IR.Ty) (v : IR.Value) (y : Val) :
    A.Simulates all (A.stands v (.value y))
      (Lower.reserve ty >>= fun slot => Lower.storeSlot slot v >>= fun _ =>
        Pure.pure (.register slot))
      (Pure.pure () : Effect State Unit) fun v' _ => A.gives (.place v') (.value y) := by
  have hadvances : Lower.Advances (Lower.reserve ty >>= fun slot => Lower.storeSlot slot v >>=
      fun _ => (Pure.pure (.register slot) : Lower IR.Value)) :=
    (Lower.Advances.reserve ty).bind fun _ => (Lower.Advances.emit rfl).bind fun _ => .pure _
  refine ⟨hadvances, ?_⟩
  intro b _ _ c hrun hcompletes hapart hplaced hv
  obtain ⟨rfl, rfl⟩ := hrun
  have hstored : (b.withSlot ty).Extends ((b.withSlot ty).withInstruction
      (.store (.register b.nextRegister) v)) :=
    (Builder.Extends.refl _).instruction (hplaced.isOpen.withSlot ty) rfl
  refine (hplaced.follows_reserve (hcompletes.of_extends hstored)).bind
    (F := fun _ => Pure.pure ()) ?_
  rintro _ c1 ⟨hplaced1, hkeeps, hslot⟩
  rw [hlayout.slotWord_of_apart hapart (Nat.le_refl _) (Nat.lt_succ_self _)] at hslot
  have hv1 := (A.stands v (.value y)).stable (Nat.le_succ _) hkeeps hv
  refine (hplaced1.follows_fill hcompletes hslot (value_of_stands hv1)).mono ?_
  rintro _ c2 ⟨hplaced2, hregisters, hslots⟩
  refine ⟨hplaced2, hkeeps.trans (.fill (Nat.le_refl _) hregisters hslots) (Nat.le_refl _),
    (b.nextRegister, [], y), ⟨⟨?_, ?_⟩, ?_, ?_⟩, rfl⟩
  · intro r hr
    cases hr
    exact Nat.lt_succ_self _
  · rw [word, hregisters]
    exact hslot
  · exact Nat.lt_succ_self _
  · rw [hslots]
    exact Config.fill_self _ _ _

theorem address (hlayout : A.Layout symbols cells all) (ty : Laye.Ty) (op : Operand)
    (r : Result Val) :
    A.Simulates all (A.gives op r) (op.address ty) (Pure.pure () : Effect State Unit)
      fun v _ => A.gives (.place v) r := by
  cases op with
  | place v => exact .pure fun _ _ h => h
  | value v =>
    cases r with
    | value y => exact spill hlayout ty.shape v y
    | place a => exact of_false (Lower.Advances.closed.address ty _) fun _ _ h => h

/-! ### The pieces of expressions -/

variable [Nonempty Val]

instance : Nonempty (Result Val) := ⟨.value (Classical.arbitrary Val)⟩

theorem computed {E : Effect State Val} (hdest : ∀ r, (i r).dest? = some r)
    (hcode : ∀ r, (i r).isAlloca = false)
    (hexec : ∀ {n c} (r), P.holds n c → A.execute c (i r) = c.compute r E) :
    A.Simulates all P (Lowering.computed i) (E >>= fun y => Pure.pure (.value y)) A.gives :=
  (define hdest hcode hexec).bind fun _ _ => .pure fun _ _ h => h

theorem operation {E : Effect State (Result Val)} {ty : Laye.Ty}
    {i : IR.Value → Register → Instruction} {F : Val → Effect State Val}
    (h : A.Simulates all P lowered E A.gives)
    (hdest : ∀ v r, (i v r).dest? = some r) (hcode : ∀ v r, (i v r).isAlloca = false)
    (hexec : ∀ c v r, A.execute c (i v r) = (A.value c v).bind fun y => c.compute r (F y)) :
    A.Simulates all P (lowered >>= fun op => op.load ty >>= fun v => Lowering.computed (i v))
      (E >>= fun r => r.load A.machine ty >>= fun y => F y >>= fun z => Pure.pure (.value z))
      A.gives := by
  refine h.bind fun op r => (load ty op r).bind fun v y => computed (hdest v) (hcode v) ?_
  intro n c r hv
  rw [hexec c v r, value_of_stands hv, Option.bind_some]

/-- The place of a part is the place of the whole with one more projection. -/
theorem part (projection : Projection Val) {base : IR.Value} {r : Result Val}
    (hdest : ∀ r, (i r).dest? = some r) (hcode : ∀ r, (i r).isAlloca = false)
    (hexec : ∀ {n c} (r), P.holds n c → A.execute c (i r) = A.part c r base projection) :
    A.Simulates all (P.and (A.gives (.place base) r))
      (Lower.define i >>= fun a => Pure.pure (.place a)) (r.part A.machine projection) A.gives := by
  cases r with
  | place a =>
    refine (define hdest hcode (w := .value) fun r h => ?_).bind fun v y => .pure fun _ _ h => h
    rw [hexec r h.1, Activation.part, h.2.2]
    rfl
  | value y =>
    -- The part is in the slot that the whole is in.
    refine weaken (Q := .ex fun part : Register × List (Projection Val) × Val =>
      P.and (((A.stands base (.slot part.1 part.2.1)).and (.stored part.1 part.2.2)).and
        (.always (A.machine.projectAll part.2.1 part.2.2 = y)))) ?_
      fun n c ⟨hP, part, hpart⟩ => ⟨part, hP, hpart⟩
    refine of_ex ((Lower.Advances.define hdest hcode).bind fun _ => .pure _)
      fun ⟨slot, path, whole⟩ => ?_
    have hdefine : A.Simulates all (P.and (A.stands base (.slot slot path))) (Lower.define i)
        (Pure.pure () : Effect State Unit)
        fun v _ => A.stands v (.slot slot (path ++ [projection])) := by
      refine define hdest hcode (w := fun _ => .slot slot (path ++ [projection])) fun r h => ?_
      rw [hexec r h.1, Activation.part, h.2.2]
      rfl
    refine (bind_silent (hdefine.frame ((Fact.stored slot whole).and
      (.always (A.machine.projectAll path whole = y)))) fun v => .pure fun n c h => ?_).weaken
        fun n c h => ⟨⟨h.1, h.2.1.1⟩, h.2.1.2, h.2.2⟩
    refine ⟨(slot, path ++ [projection], whole), ⟨h.1, h.2.1⟩, ?_⟩
    rw [Fact.always, Machine.projectAll_append, h.2.2]

/-- A call gives what the machine answers, and the unit value for a void function. -/
theorem call (name : String) (ty : Laye.Ty) (args : List IR.Value) (ys : List Val) :
    A.Simulates all (A.standAll args ys) (Lowering.call name ty args)
      (A.machine.call name ys >>= fun y =>
        Pure.pure (.value (if ty.isVoid then A.machine.unit else y))) A.gives := by
  unfold Lowering.call
  split
  · refine (emit rfl fun h => ?_).bind fun _ y => .pure fun n c _ =>
      ⟨(fun r hr => nomatch hr), rfl⟩
    simp only [execute, mapM_of_standAll h, Option.bind_eq_bind, Option.bind_some]
  · refine computed (fun _ => rfl) (fun _ => rfl) fun r h => ?_
    simp only [execute, mapM_of_standAll h, Option.bind_eq_bind, Option.bind_some]

theorem elements (hlayout : A.Layout symbols cells all) (target : Typed.Expr)
    {E : Effect State (Result Val)} (h : A.Simulates all P lowered E A.gives) :
    A.Simulates all P (Lowering.elements target lowered)
      (E >>= fun r => r.elements A.machine target.ty)
      fun v container => A.gives (.place v) container := by
  have hload : ∀ ty, A.Simulates all P (lowered >>= fun op => op.load ty)
      (E >>= fun r => r.load A.machine ty >>= fun a => Pure.pure (.place a))
      fun v container => A.gives (.place v) container := fun ty =>
    h.bind fun op r => (load ty op r).map fun _ _ _ _ hv => hv
  have hslice : ∀ ty, A.Simulates all P (lowered >>= fun op => op.load ty >>= fun v =>
        Lower.define fun dest => .sliceData dest v)
      (E >>= fun r => r.load A.machine ty >>= fun y => A.machine.sliceData y >>= fun a =>
        Pure.pure (.place a))
      fun v container => A.gives (.place v) container := by
    refine fun ty => h.bind fun op r => (load ty op r).bind fun v y =>
      (define (w := .value) (fun _ => rfl) (fun _ => rfl) fun r hv => ?_).map fun _ _ _ _ ha => ha
    simp only [execute, value_of_stands hv, Option.bind_eq_bind, Option.bind_some]
    rfl
  unfold Lowering.elements Result.elements
  generalize target.ty = ty
  cases ty with
  | array _ _ _ =>
    exact h.bind fun op r => (address hlayout _ op r).map (g := fun _ => r) fun _ _ _ _ hv => hv
  | pointer _ _ | buffer _ _ | rawptr => exact hload _
  | slice _ _ | string => exact hslice _
  | _ => exact refuse _ _

end Simulates

end Activation

end Laye
