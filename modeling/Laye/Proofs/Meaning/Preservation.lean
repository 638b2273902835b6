import Laye.Proofs.Elaboration.Lexical
import Laye.Proofs.Meaning.Statement

/-!
# Lowering preserves meaning

The code of a function returns a value in a state if and only if the evaluation of the function
gives that value in that state. This holds of every function of an accepted program that is lowered,
on every machine, for all arguments and in every state. Each variable lives in a stack slot of its
own (`IR.Function.Allots`).

The code of a function starts with its parameters, whose arguments are stored into their cells
(`Lowering.follows_params`). Then it follows the body (`Typed.Function.follows_run`). The run starts
where the builder did, and the finished function holds all that the builder had at the end
(`Lowering.hosts_complete`).
-/

namespace Laye

open IR

variable {Val State : Type} {A : Activation Val State} {all : List (SymbolId × Register)}
  {symbols : SymbolTable} {cells : SymbolId → Val} {b b' : Builder} {c : Config Val State}

/-! ### Parameters -/

theorem Activation.Placed.follows_param (hlayout : A.Layout symbols cells all)
    (h : A.Placed all b c) {symbol : SymbolId} {ty : IR.Ty} {place : Nat}
    (hhosts : A.Hosts all (b.withParam symbol ty place)) :
    A.Follows 0 c ((StateT.lift A.args[place]? >>= fun v => A.machine.store (cells symbol) v)
      c.state) fun _ c' => A.Placed all (b.withParam symbol ty place) c' := by
  have hstored : (b.withSlot ty).Extends ((b.withSlot ty).withInstruction
      (.store (.register b.nextRegister) (.param place))) :=
    (Builder.Extends.refl _).instruction (h.isOpen.withSlot ty) rfl
  have hreserves := hstored.reserves (Builder.reserves_withSlot h.entry_lt ty)
  have hcompletes := hhosts.completes.of_extends ((Builder.Extends.refl _).bound hreserves)
  have hcell : A.slotWord b.nextRegister = .value (cells symbol) := by
    rw [slotWord, hlayout.cell (symbol, b.nextRegister) (hhosts.fits.bound List.mem_cons_self)]
  refine (h.follows_reserve (hcompletes.of_extends hstored)).silent ?_
  rintro c1 ⟨hplaced, -, hslot⟩
  refine (hplaced.follows_emit rfl hcompletes (f := fun c' _ => c') (fun code => ?_)
    fun _ _ => ⟨rfl, rfl, rfl, rfl⟩).mono ?_
  · have hword : A.word { c1 with code := code } (.register b.nextRegister) =
        some (.value (cells symbol)) := by rw [← hcell]; exact hslot
    have hvalue : A.value { c1 with code := code } (.param place) = A.args[place]? := by
      cases harg : A.args[place]? <;> simp [value, word, harg, Word.value?]
    rw [execute, hvalue, hword]
    cases A.args[place]? <;> rfl
  · rintro _ _ ⟨hplaced', code, s, rfl⟩
    exact hplaced'.withVariable hreserves hhosts.fits.bound

theorem Lowering.follows_params (hlayout : A.Layout symbols cells all) {ids : List SymbolId}
    {next : Nat} (hids : ∀ id ∈ ids, symbols.isBinding id = true)
    (hrun : params symbols next ids b = .ok ((), b')) (hhosts : A.Hosts all b')
    (h : A.Placed all b c) :
    A.Follows 0 c (Typed.Function.enter A.machine cells A.args next ids c.state) fun _ c' =>
      A.Placed all b' c' := by
  induction ids generalizing next b c with
  | nil =>
    rw [params_nil_stages hrun] at hhosts ⊢
    exact .pure h
  | cons symbol rest ih =>
    have hrun' := params_cons_stages hrun
    have hids' : ∀ id ∈ rest, symbols.isBinding id = true := fun id hid => hids id (by simp [hid])
    obtain ⟨hext, -⟩ := advances_params symbols rest (next + 1)
      (Builder.isOpen_withParam h.isOpen symbol _ next) hrun'
    have hhosts' := hhosts.before hext.leads (binds_params (next + 1) hids' hrun')
    have hparam := h.follows_param hlayout hhosts'
    have hrest := hparam.bind (F := fun _ => Typed.Function.enter A.machine cells A.args
      (next + 1) rest) fun _ c' hplaced => ih hids' hrun' hplaced
    rwa [bind_assoc] at hrest

/-! ### Bodies -/

variable {returnsVoid : Bool} {f : Typed.Function} {signature : Signature}

theorem Lowering.hosts_complete (h : complete returnsVoid f b.blocks = .ok A.blocks) :
    A.Hosts b.slots b := by
  refine ⟨fun id block hblock => ⟨closeOpen block, ?_, ?_⟩, fun e he => he, fun e he => .inl he⟩
  · rw [complete_eq_ok h, List.getElem?_map, hblock, Option.map_some]
  · cases hterm : block.terminator with
    | none =>
      have hopen : closeOpen block = block.close (.ret none) := by
        simp [closeOpen, Block.isClosed, hterm]
      exact hopen ▸ .close hterm trivial
    | some t =>
      have hclosed : closeOpen block = block := closeOpen_of_closed (by
        simp [Block.isClosed, hterm])
      exact hclosed.symm ▸ .refl _ _ _

theorem Lowering.step_complete (h : complete returnsVoid f b.blocks = .ok A.blocks)
    (hplaced : A.Placed all b c) : A.step c = some (.returned none c.state) := by
  obtain ⟨block, hblock, hopen⟩ := hplaced.isOpen
  obtain ⟨_, hfinal, hcode⟩ := hplaced.code block hblock
  have hclosed : closeOpen block = block.close (.ret none) := by
    simp [closeOpen, Block.isClosed, hopen]
  have hblock' : A.blocks[b.current]? = some (block.close (.ret none)) := by
    rw [complete_eq_ok h, List.getElem?_map, hblock, Option.map_some, hclosed]
  rw [hfinal, Option.some.injEq] at hblock'
  subst hblock'
  have hdone : c.code = [] := List.append_right_eq_self.mp hcode.symm
  rw [Activation.step, hdone, hplaced.block, hfinal]
  rfl

theorem Typed.Body.executes_body [Nonempty Val] (hlayout : A.Layout symbols cells all)
    {returnType : Laye.Ty} {body : Typed.Body} (h : body.WellTyped symbols returnType)
    (hdefined : body ≠ .empty) (returnsVoid : Bool) :
    A.Executes all symbols none (Lowering.body symbols returnsVoid body)
      (body.exec A.machine symbols cells returnsVoid) := by
  cases body with
  | empty => exact absurd rfl hdefined
  | block stmts _ => exact Stmt.executes_lowerBlock hlayout none stmts h
  | expression value =>
    refine .ret (Expr.simulates_lowerValue hlayout h.1)
      (fun _ => Lower.Binds.closed.lowerValue symbols value) ?_
    intro v y n c hv
    cases returnsVoid with
    | true => rfl
    | false =>
      simp [Activation.finish, Activation.value_of_stands hv]

theorem Typed.Function.follows_run
    (hbody : A.Executes all symbols none (Lowering.body symbols (f.returnsVoid symbols) f.body)
      (f.body.exec A.machine symbols cells (f.returnsVoid symbols)))
    (hrun : Lowering.body symbols (f.returnsVoid symbols) f.body b = .ok ((), b'))
    (hcomplete : Lowering.complete (f.returnsVoid symbols) f b'.blocks = .ok A.blocks)
    (hhosts : A.Hosts all b') (hplaced : A.Placed all b c) :
    A.Follows 0 c (f.run A.machine symbols cells c.state) fun v c' =>
      A.step c' = some (.returned v c'.state) := by
  refine (hbody.follows hrun (Builder.admits_none b) hhosts hplaced).bind ?_
  intro o c' ho
  cases o with
  | next => exact .pure (Lowering.step_complete hcomplete ho.1)
  | ret _ => exact .pure ho
  | _ =>
    obtain ⟨_, hloop, -⟩ := ho
    cases hloop

/-! ### Functions -/

/-- The variable that has its slot in a register. -/
def Builder.ownerOf? (b : Builder) (r : Register) : Option SymbolId :=
  (b.slots.find? (·.2 == r)).map (·.1)

theorem Lowering.layout_code (hwell : f.WellTyped symbols signature)
    (hcode : code symbols returnsVoid f .start = .ok ((), b))
    (hcells : A.cellOf = fun r => (b.ownerOf? r).map cells) : A.Layout symbols cells b.slots := by
  obtain ⟨hbinding, hpairs⟩ := binds_code hwell hcode
  have hnodup : (b.slots.map Prod.snd).Nodup :=
    List.pairwise_map.mpr (hpairs.imp fun hlt => (Nat.ne_of_lt hlt).symm)
  refine ⟨fun e he => ?_, fun r hr => ?_, hbinding⟩
  · cases hfind : b.slots.find? (·.2 == e.2) with
    | none => simpa using List.find?_eq_none.mp hfind e he
    | some e' =>
      have heq : e'.2 = e.2 := by simpa using List.find?_some hfind
      obtain rfl := List.inj_on_of_nodup_map hnodup (List.mem_of_find?_eq_some hfind) he heq
      simp [hcells, Builder.ownerOf?, hfind]
  · have hfind : b.slots.find? (·.2 == r) = none := by simpa using hr
    simp [hcells, Builder.ownerOf?, hfind]

theorem Activation.placed_start {block : Block} (hblock : A.blocks[Builder.entry]? = some block)
    (s : State) :
    A.Placed all .start ⟨Builder.entry, block.instructions, fun _ => none, fun _ => none, s⟩ := by
  refine ⟨.refl _, Builder.isOpen_start, by simp [Builder.start], rfl, ?_, ?_⟩
  · rintro _ ⟨⟩
    exact ⟨block, hblock, rfl⟩
  · rintro r (⟨_, ty, ⟨⟩, hmem⟩ | ⟨hne, -⟩)
    · cases hmem
    · exact absurd rfl hne

/-- A run that follows an evaluation returns exactly what that gives, since runs are
deterministic. -/
theorem Activation.Follows.returns_iff {o : Option (Option Val × State)} {v : Option Val}
    {s : State} (h : A.Follows 0 c o fun v c' => A.step c' = some (.returned v c'.state)) :
    o = some (v, s) ↔ A.Returns c v s := by
  match o, h with
  | none, hnot => simpa using hnot v s
  | some (v', _), ⟨n, c', _, hsteps, hstate, hlast⟩ =>
    subst hstate
    have hreturns : A.Returns c v' c'.state := ⟨n, c', hsteps, hlast⟩
    constructor
    · rintro ⟨⟩
      exact hreturns
    · intro hreturns'
      obtain ⟨rfl, rfl⟩ := hreturns.eq hreturns'
      rfl

/-- The code of a function follows its evaluation. -/
theorem Lowering.follows_eval [Nonempty Val] (hlayout : A.Layout symbols cells b.slots)
    (hwell : f.WellTyped symbols signature) (hdefined : f.isDefined = true)
    (hcode : code symbols (f.returnsVoid symbols) f .start = .ok ((), b))
    (hcomplete : complete (f.returnsVoid symbols) f b.blocks = .ok A.blocks) {block : Block}
    (hblock : A.blocks[Builder.entry]? = some block) (s : State) :
    A.Follows 0 ⟨Builder.entry, block.instructions, fun _ => none, fun _ => none, s⟩
      (f.eval A.machine symbols cells A.args s) fun v c' =>
        A.step c' = some (.returned v c'.state) := by
  obtain ⟨_, _, hparams, hbody⟩ := Lower.bind_eq_ok.mp hcode
  have hhosts : A.Hosts b.slots b := hosts_complete hcomplete
  have hempty : f.body ≠ .empty := by
    intro hempty
    simp [Typed.Function.isDefined, hempty] at hdefined
  have hids : ∀ id ∈ f.params, symbols.isBinding id = true := fun _ hid =>
    isBinding_of_mem_params hwell hid
  have hexecutes := Typed.Body.executes_body hlayout hwell.body hempty (f.returnsVoid symbols)
  -- The function holds what the builder had between the parameters and the body.
  obtain ⟨-, hopen1⟩ := advances_params symbols f.params 0 Builder.isOpen_start hparams
  have hext1 := hexecutes.extending hopen1 (Builder.admits_none _) hbody
  have hhosts1 := hhosts.before hext1.leads (hexecutes.binds hbody)
  refine (follows_params hlayout hids hparams hhosts1 (Activation.placed_start hblock s)).bind ?_
  intro _ c hplaced
  exact Typed.Function.follows_run hexecutes hbody hcomplete hhosts hplaced

/-- Which stack slots of the function `g` are the cells of variables of the function `f`. Each is
reserved in the entry block of `g`, and no two of them belong to one variable, so slots that are
reserved apart are different cells. -/
structure IR.Function.Allots (g : IR.Function) (f : Typed.Function)
    (owner : Register → Option SymbolId) : Prop where
  introduced : ∀ r id, owner r = some id → id ∈ f.introduced
  reserved : ∀ r id, owner r = some id → ∃ block ty, g.blocks[g.entry]? = some block ∧
    .alloca r ty ∈ block.instructions
  apart : ∀ r r' id, owner r = some id → owner r' = some id → r = r'

/-- The function `g` of a module does what the function `f` of a program does. On every machine,
wherever the cells of variables are, a call of `g` returns a value in a state exactly if the
evaluation of `f` gives them. Some slots of `g` are the cells of variables, as `owner` says, and the
others are private. -/
def IR.Function.Realizes (g : IR.Function) (symbols : SymbolTable) (f : Typed.Function) : Prop :=
  ∃ owner : Register → Option SymbolId, g.Allots f owner ∧
    ∀ (Val State : Type) (M : Machine Val State) (cells : SymbolId → Val) (args : List Val)
      (s s' : State) (v : Option Val),
      f.eval M symbols cells args s = some (v, s') ↔
        g.Returns M (fun r => (owner r).map cells) args s v s'

theorem Builder.mem_slots_of_ownerOf? {r : Register} {id : SymbolId}
    (h : b.ownerOf? r = some id) : (id, r) ∈ b.slots := by
  obtain ⟨e, hfind, rfl⟩ := Option.map_eq_some_iff.mp h
  obtain rfl : e.2 = r := by simpa using List.find?_some hfind
  exact List.mem_of_find?_eq_some hfind

/-- The slots that a builder has given to variables are those of the finished function. -/
theorem Lowering.Becomes.allots {g : IR.Function} (h : Becomes symbols f g)
    (hcode : code symbols returnsVoid f .start = .ok ((), b))
    (hcomplete : complete returnsVoid f b.blocks = .ok g.blocks) (honce : f.introduced.Nodup) :
    g.Allots f b.ownerOf? := by
  refine ⟨fun r id hid => ?_, fun r id hid => ?_, fun r r' id hid hid' => ?_⟩
  · obtain ⟨added, hslots, hadded⟩ := declares_code hcode
    have hall : b.slots = added := by simpa [Builder.start] using hslots
    refine hadded.subset (List.mem_reverse.mpr (List.mem_map.mpr ⟨(id, r), ?_, rfl⟩))
    exact hall ▸ Builder.mem_slots_of_ownerOf? hid
  · obtain ⟨block, ty, hblock, _⟩ := Builder.reserves_of_mem_slots (extends_code hcode)
      (Builder.mem_slots_of_ownerOf? hid)
    refine ⟨closeOpen block, ty, ?_, by rwa [closeOpen_instructions]⟩
    rw [h.entry_eq, complete_eq_ok hcomplete, List.getElem?_map, hblock, Option.map_some]
  · have hsame := List.inj_on_of_nodup_map (nodup_slots hcode honce)
      (Builder.mem_slots_of_ownerOf? hid) (Builder.mem_slots_of_ownerOf? hid') rfl
    exact congrArg Prod.snd hsame

theorem Lowering.Becomes.realizes {g : IR.Function} (h : Becomes symbols f g)
    (hwell : f.WellTyped symbols signature) (hdefined : f.isDefined = true)
    (honce : f.introduced.Nodup) : g.Realizes symbols f := by
  obtain ⟨signature', b, hsignature, hcode, hcomplete⟩ := h.built
  have hvoid : signature'.returnType.isVoid = f.returnsVoid symbols := by
    simp [Typed.Function.returnsVoid, hsignature]
  rw [hvoid] at hcode hcomplete
  refine ⟨b.ownerOf?, h.allots hcode hcomplete honce, fun Val State M cells args s s' v => ?_⟩
  have : Nonempty Val := ⟨M.unit⟩
  let A : Activation Val State := ⟨M, g.blocks, args, fun r => (b.ownerOf? r).map cells⟩
  have hlayout : A.Layout symbols cells b.slots := layout_code hwell hcode rfl
  have hhosts : A.Hosts b.slots b := hosts_complete hcomplete
  obtain ⟨block, hblock, -⟩ := hhosts.completes Builder.entry _
    (List.getElem?_eq_getElem (extends_code hcode).entry_lt)
  have hfollows := follows_eval hlayout hwell hdefined hcode hcomplete hblock s
  refine hfollows.returns_iff.trans ⟨fun hreturns => ⟨block, ?_, ?_⟩, ?_⟩
  · rw [h.entry_eq]
    exact hblock
  · rw [h.entry_eq]
    exact hreturns
  · rintro ⟨block', hblock', hreturns⟩
    rw [h.entry_eq] at hblock' hreturns
    obtain rfl : block = block' := Option.some.inj (hblock.symm.trans hblock')
    exact hreturns

/-- Lowering preserves meaning. The functions of a module that an accepted program is lowered to are
its functions with a body, in order, and each does what the function of the program does. -/
theorem lower_realizes {keepGoing : Bool} {trees : List SyntaxTree} {p : Typed.Program}
    {name : String} {m : IR.Module} (hp : (checkProgram keepGoing trees).program = some p)
    (hm : p.lower name = .ok m) :
    List.Forall₂ (fun f g => g.name = f.name ∧ g.Realizes p.symbols f)
      (Typed.Decl.definedFunctions p.decls) m.functions := by
  have hwell : ∀ f ∈ Typed.Decl.definedFunctions p.decls,
      f.isDefined = true ∧ f.introduced.Nodup ∧ ∃ signature, f.WellTyped p.symbols signature := by
    intro f hf
    obtain ⟨hmem, hdefined⟩ := Typed.Decl.mem_definedFunctions.mp hf
    exact ⟨hdefined, accepted_introduced_nodup hp hmem, (accepted_wellTyped hp).2 f hmem⟩
  have hboth := (List.forall₂_and_left _ _).mpr ⟨hwell, Typed.Program.functions_lower hm⟩
  refine hboth.imp ?_
  rintro f g ⟨⟨hdefined, honce, signature, hf⟩, hbecomes⟩
  exact ⟨hbecomes.name_eq, hbecomes.realizes hf hdefined honce⟩

theorem lower_realizes_counter :
    ∃ p m f g, (checkProgram false [.counter]).program = some p ∧ p.lower "counter" = .ok m ∧
      Typed.Decl.definedFunctions p.decls = [f] ∧ m.functions = [g] ∧ g.name = f.name ∧
      g.Realizes p.symbols f := by
  have hlowers : ((checkProgram false [.counter]).program.any fun p => (p.lower "counter").isOk &&
      (Typed.Decl.definedFunctions p.decls).length == 1) = true := by decide +kernel
  obtain ⟨p, hp, htest⟩ := (Option.any_eq_true _ _).mp hlowers
  obtain ⟨hok, hone⟩ := Bool.and_eq_true_iff.mp htest
  obtain ⟨f, hf⟩ := List.length_eq_one_iff.mp (beq_iff_eq.mp hone)
  cases hm : p.lower "counter" with
  | error fault => simp [hm, Except.isOk, Except.toBool] at hok
  | ok m =>
    have hall := lower_realizes hp hm
    rw [hf] at hall
    obtain ⟨g, rest, ⟨hname, hg⟩, hrest, hfunctions⟩ := List.forall₂_cons_left_iff.mp hall
    rw [List.forall₂_nil_left_iff.mp hrest] at hfunctions
    exact ⟨p, m, f, g, hp, hm, hf, hfunctions, hname, hg⟩

end Laye
