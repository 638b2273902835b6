import Laye.Compilation
import Laye.Proofs.Lowering.Exits
import Laye.Proofs.Lowering.Totality
import Laye.Proofs.Typing.Scoping

/-!
# What can be lowered

In a checked program variables have slots by the time they are read, so its expressions can always
be lowered. A statement can be lowered unless it contains a `yield` or a loop with an `else` body
outside of dead code (`Typed.Stmt.decides_lower`). A function can be lowered if its body can and
control never gets to its end without a value that it must return (`Typed.Function.isLowerable`).
`accepted_lowers_iff` says of an accepted program that it is lowered exactly if all its functions
can be, and what is reported if not. -/

namespace Laye

open IR

/-! ### Forms that are not supported -/

namespace Typed

mutual

/-- Whether the statement is free of `yield` and of loops with an `else` body, dead code aside. -/
def Stmt.isLowerable : Stmt → Bool
  | .yield _ _ | .whileLoop _ _ (some _) _ => false
  | .block stmts _ => Stmt.allLowerable stmts
  | .conditional _ body none _ | .whileLoop _ body none _ => body.isLowerable
  | .conditional _ body (some elseBody) _ => body.isLowerable && elseBody.isLowerable
  | .binding _ _ _ | .expression _ | .ret _ _ | .assign _ _ _ | .breakLoop _ | .continueLoop _
  | .deadCode _ _ => true

def Stmt.allLowerable : List Stmt → Bool
  | [] => true
  | stmt :: rest => stmt.isLowerable && Stmt.allLowerable rest

end

/-- Whether the body is free of `yield` and of loops with an `else` body, dead code aside. -/
def Body.isLowerable : Body → Bool
  | .block stmts _ => Stmt.allLowerable stmts
  | .empty | .expression _ => true

theorem Stmt.allLowerable_of_dead {stmts : List Stmt} (h : ∀ stmt ∈ stmts, stmt.isDead = true) :
    Stmt.allLowerable stmts = true := by
  induction stmts with
  | nil => rfl
  | cons stmt _ ih =>
    have hstmt := h stmt (by simp)
    have hrest := ih fun s hs => h s (by simp [hs])
    cases stmt with
    | deadCode _ _ => simp [allLowerable, isLowerable, hrest]
    | _ => cases hstmt

end Typed

/-- What is said about a form that is not supported. -/
def Problem.IsUnsupported (problem : Problem) : Prop :=
  problem = .yieldUnsupported ∨ problem = .whileElse

/-! ### Statements -/

namespace Lower

/-- Inside the given loop and with slots for the variables in `known`, the step succeeds exactly if
`lowerable` says so. Then it keeps the slots and gives one to each of `declared`; otherwise it met
a form that is not supported. -/
def Decides (loop : Option LoopTargets) (known declared : List SymbolId) (lowerable : Bool)
    (x : Lower Unit) : Prop :=
  ∀ ⦃b : Builder⦄, b.IsOpen → b.Admits loop → b.Holds known →
    (∀ b', x b = .ok ((), b') → lowerable = true ∧ b'.Holds (declared ++ known)) ∧
    ∀ fault, x b = .error fault → lowerable = false ∧ fault.problem.IsUnsupported

namespace Decides

variable {α : Type} {loop : Option LoopTargets} {known declared declared' : List SymbolId}
  {lowerable lowerable' : Bool}

theorem of_total {x : Lower Unit} (hx : Total known x) : Decides loop known [] true x := by
  intro b _ _ hb
  obtain ⟨a, _, hrun, hb'⟩ := hx hb
  rw [hrun]
  refine ⟨?_, fun _ h => by cases h⟩
  rintro _ ⟨⟩
  exact ⟨rfl, hb'⟩

theorem refuse (span : Span) {problem : Problem} (h : problem.IsUnsupported) :
    Decides loop known declared false (Lower.refuse span problem) := by
  intro b _ _ _
  refine ⟨fun _ hrun => absurd hrun refuse_ne_ok, ?_⟩
  rintro _ ⟨⟩
  exact ⟨rfl, h⟩

theorem binding {symbols : SymbolTable} {symbol : SymbolId} {value : Option Typed.Expr}
    (hvalue : Total known (Lowering.optionalValue symbols value)) :
    Decides loop known [symbol] true (Lowering.binding symbols symbol value) := by
  intro b _ _ hb
  have hslot : (b.withSlot (symbols.symbolAt symbol).ty.shape).Holds known := hb.of_slots rfl
  obtain ⟨initial, _, hrun, hb1⟩ := hvalue hslot
  refine ⟨fun b' h => ?_, fun fault h => ?_⟩
  · obtain ⟨_, _, hrun', rfl⟩ := Lowering.binding_stages h
    rw [hrun] at hrun'
    cases hrun'
    refine ⟨rfl, Builder.Holds.withVariable ?_ symbol b.nextRegister⟩
    cases initial with
    | none => exact hb1
    | some v => exact hb1.of_slots rfl
  · simp only [Lowering.binding, bind_eq_error, reserve_run, reduceCtorEq, Except.ok.injEq,
      Prod.mk.injEq, ↓existsAndEq, true_and, false_or, hrun] at h
    cases initial with
    | none | some v => cases h

variable {condition : Lower IR.Value}

section

variable (hcond : Total known condition) (hadvances : Advances condition)
include hcond hadvances

theorem ifThen {thenBody : Lower Unit} (hthen : Decides loop known declared lowerable thenBody) :
    Decides loop known [] lowerable (Lowering.ifThen condition thenBody) := by
  intro b hopen hloop hb
  obtain ⟨value, b1, hrun, hb1⟩ := hcond hb
  obtain ⟨hext1, hopen1⟩ := hadvances hopen hrun
  have hloop1 : (b1.enterThen "if.end" value).Admits loop :=
    hloop.mono (Nat.le_trans hext1.length_le (by simp [Builder.enterThen]))
  obtain ⟨hok, hfault⟩ := hthen (Builder.isOpen_fork hopen1 _ _ : (b1.enterThen _ value).IsOpen)
    hloop1 (hb1.of_slots rfl)
  refine ⟨fun b' h => ?_, fun fault h => ?_⟩
  · obtain ⟨_, _, b2, hrun1, hrun2, rfl⟩ := Lowering.ifThen_stages h
    rw [hrun] at hrun1
    cases hrun1
    obtain ⟨hlowerable, hb2⟩ := hok b2 hrun2
    exact ⟨hlowerable, (hb2.mono (List.subset_append_right _ _)).of_slots
      (by simp [Builder.resumeAt])⟩
  · rcases Lowering.ifThen_fault h with hrun1 | ⟨_, _, hrun1, hrun2⟩
    · rw [hrun] at hrun1
      cases hrun1
    · rw [hrun] at hrun1
      cases hrun1
      exact hfault fault hrun2

theorem ifThenElse {thenBody elseBody : Lower Unit} (hext : Extending loop thenBody)
    (hthen : Decides loop known declared lowerable thenBody)
    (helse : Decides loop known declared' lowerable' elseBody) :
    Decides loop known [] (lowerable && lowerable')
      (Lowering.ifThenElse condition thenBody elseBody) := by
  intro b hopen hloop hb
  obtain ⟨value, b1, hrun, hb1⟩ := hcond hb
  obtain ⟨hext1, hopen1⟩ := hadvances hopen hrun
  have hfork : (b1.enterThen "if.else" value).IsOpen := Builder.isOpen_fork hopen1 _ _
  have hloop1 : (b1.enterThen "if.else" value).Admits loop :=
    hloop.mono (Nat.le_trans hext1.length_le (by simp [Builder.enterThen]))
  obtain ⟨hok, hfault⟩ := hthen hfork hloop1 (hb1.of_slots rfl)
  -- What the `else` branch starts with, if the other one succeeds.
  have helse' : ∀ b2, thenBody (b1.enterThen "if.else" value) = .ok ((), b2) →
      (b2.movedTo (b1.blocks.length + 1)).IsOpen ∧
        (b2.movedTo (b1.blocks.length + 1)).Admits loop ∧
        (b2.movedTo (b1.blocks.length + 1)).Holds known := by
    intro b2 hrun2
    have hext2 := hext hfork hloop1 hrun2
    exact ⟨hext2.openAt (Builder.openAt_fork hopen1 _ _) (Nat.succ_ne_self _),
      hloop1.mono hext2.length_le,
      ((hok b2 hrun2).2.mono (List.subset_append_right _ _)).of_slots rfl⟩
  refine ⟨fun b' h => ?_, fun fault h => ?_⟩
  · obtain ⟨_, _, b2, b3, hrun1, hrun2, hrun3, rfl⟩ := Lowering.ifThenElse_stages h
    rw [hrun] at hrun1
    cases hrun1
    obtain ⟨hopen2, hloop2, hb2⟩ := helse' b2 hrun2
    obtain ⟨hlowerable', hb3⟩ := (helse hopen2 hloop2 hb2).1 b3 hrun3
    refine ⟨by rw [(hok b2 hrun2).1, hlowerable']; rfl, ?_⟩
    exact (hb3.mono (List.subset_append_right _ _)).of_slots (by simp)
  · rcases Lowering.ifThenElse_fault h with hrun1 | ⟨_, _, hrun1, hrest⟩
    · rw [hrun] at hrun1
      cases hrun1
    · rw [hrun] at hrun1
      cases hrun1
      rcases hrest with hrun2 | ⟨b2, hrun2, hrun3⟩
      · obtain ⟨hlowerable, hproblem⟩ := hfault fault hrun2
        exact ⟨by rw [hlowerable]; rfl, hproblem⟩
      · obtain ⟨hopen2, hloop2, hb2⟩ := helse' b2 hrun2
        obtain ⟨hlowerable', hproblem⟩ := (helse hopen2 hloop2 hb2).2 fault hrun3
        exact ⟨by rw [hlowerable', Bool.and_false], hproblem⟩

theorem whileLoop {body : LoopTargets → Lower Unit}
    (hbody : ∀ targets, Decides (some targets) known declared lowerable (body targets)) :
    Decides loop known [] lowerable (Lowering.loop condition body) := by
  intro b hopen _ hb
  have henter : b.enterLoop.Holds known :=
    hb.of_slots (by simp [Builder.enterLoop, Builder.withLoop, Builder.resumeAt])
  obtain ⟨value, b1, hrun, hb1⟩ := hcond henter
  have hext1 := (hadvances (Builder.openAt_enterLoop hopen (n := 0) (by decide)) hrun).1
  have hopen1 : (b1.enterBody b.blocks.length value).IsOpen :=
    (Builder.emptyAt_enterBody hopen hext1 (n := 0) (by decide) value).openAt
  have hadmits : (b1.enterBody b.blocks.length value).Admits (some b.loopTargets) :=
    Builder.admits_loopTargets hopen (by simpa [Builder.enterBody] using hext1.length_le)
  obtain ⟨hok, hfault⟩ := hbody b.loopTargets hopen1 hadmits (hb1.of_slots rfl)
  refine ⟨fun b' h => ?_, fun fault h => ?_⟩
  · obtain ⟨_, _, b2, hrun1, hrun2, rfl⟩ := Lowering.loop_stages h
    rw [hrun] at hrun1
    cases hrun1
    obtain ⟨hlowerable, hb2⟩ := hok b2 hrun2
    exact ⟨hlowerable,
      (hb2.mono (List.subset_append_right _ _)).of_slots (by simp [Builder.leaveLoop])⟩
  · rcases Lowering.loop_fault h with hrun1 | ⟨_, _, hrun1, hrun2⟩
    · rw [hrun] at hrun1
      cases hrun1
    · rw [hrun] at hrun1
      cases hrun1
      exact hfault fault hrun2

end

end Decides

end Lower

namespace Typed.Stmt

open Lower (Total Decides Settling)

variable {symbols : SymbolTable} {returnType : Ty}

mutual

theorem decides_lower : (s : Stmt) → {inLoop : Bool} → {loop : Option LoopTargets} →
    {known : List SymbolId} → s.WellTyped symbols returnType inLoop → s.WellScoped symbols known →
      (inLoop = true → loop.isSome = true) →
      Decides loop known s.declared s.isLowerable (s.lower symbols loop)
  | .block stmts _, _, _, _, hwell, hscoped, hloop => by
    cases hwell with
    | block _ hstmts => exact decides_lowerBlock stmts hstmts hscoped hloop
  | .binding symbol value _, _, _, _, hwell, hscoped, _ => by
    cases hwell with
    | binding _ _ _ _ hvalue =>
      exact .binding (.optionalValue fun e he =>
        Expr.total_lowerValue (hvalue e he).1 (hscoped e he))
  | .expression value, _, _, _, hwell, hscoped, _ => by
    cases hwell with
    | expression hvalue =>
      exact .of_total ((Expr.total_lowerValue hvalue hscoped).bind fun _ => .pure _)
  | .ret value _, _, _, _, hwell, hscoped, _ => by
    cases hwell with
    | ret _ hvalue =>
      refine .of_total ((Total.optionalValue fun e he => ?_).bind fun _ => .close _)
      cases he
      exact Expr.total_lowerValue hvalue.2.1 (hscoped e rfl)
  | .assign target value _, _, _, _, hwell, hscoped, _ => by
    cases hwell with
    | assign _ htarget _ _ hvalue _ =>
      exact .of_total ((Expr.total_lowerAddress htarget hscoped.1).bind fun _ =>
        (Expr.total_lowerValue hvalue hscoped.2).bind fun _ => .emit _)
  | .conditional condition body none _, _, loop, _, hwell, hscoped, hloop => by
    cases hwell with
    | conditional _ hcondition _ hbody _ =>
      exact .ifThen (Expr.total_lowerValue hcondition hscoped.1)
        (Settling.closed.lowerValue symbols condition).advances
        (decides_lower body hbody hscoped.2 hloop)
  | .conditional condition body (some elseBody) _, _, loop, _, hwell, hscoped, hloop => by
    cases hwell with
    | conditional _ hcondition _ hbody helse =>
      exact .ifThenElse (Expr.total_lowerValue hcondition hscoped.1)
        (Settling.closed.lowerValue symbols condition).advances
        (extending_lower symbols loop body) (decides_lower body hbody hscoped.2.1 hloop)
        (decides_lower elseBody (helse elseBody rfl) hscoped.2.2 hloop)
  | .whileLoop condition body none _, _, _, _, hwell, hscoped, _ => by
    cases hwell with
    | whileLoop _ hcondition _ hbody _ =>
      exact .whileLoop (Expr.total_lowerValue hcondition hscoped.1)
        (Settling.closed.lowerValue symbols condition).advances
        fun targets => decides_lower body hbody hscoped.2 fun _ => rfl
  | .whileLoop _ _ (some _) span, _, _, _, _, _, _ => .refuse span (.inr rfl)
  | .breakLoop _, _, _, _, hwell, _, hloop | .continueLoop _, _, _, _, hwell, _, hloop => by
    cases hwell
    obtain ⟨_, rfl⟩ := Option.isSome_iff_exists.mp (hloop rfl)
    exact .of_total (.close _)
  | .yield _ span, _, _, _, _, _, _ => .refuse span (.inl rfl)
  | .deadCode _ _, _, _, _, _, _, _ => .of_total (.pure _)

theorem decides_lowerBlock : (stmts : List Stmt) → {inLoop : Bool} → {loop : Option LoopTargets} →
    {known : List SymbolId} → (∀ stmt ∈ stmts, stmt.WellTyped symbols returnType inLoop) →
      WellScopedAll symbols known stmts → (inLoop = true → loop.isSome = true) →
      Decides loop known [] (allLowerable stmts) (lowerBlock symbols loop stmts)
  | [], _, _, _, _, _, _ => .of_total (.pure _)
  | stmt :: rest, _, loop, _, hwell, hscoped, hloop => by
    obtain ⟨hstmt, hrest, hdead⟩ := wellScopedAll_cons.mp hscoped
    intro b hopen hadmits hb
    obtain ⟨hok, hfault⟩ :=
      decides_lower stmt (hwell stmt (by simp)) hstmt hloop hopen hadmits hb
    -- After the first statement either nothing else is lowered, and all of it is dead, or the rest
    -- starts in an open block.
    have hnext : ∀ b1, stmt.lower symbols loop b = .ok ((), b1) →
        (lowerBlock symbols loop rest b1 = .ok ((), b1) ∧ allLowerable rest = true) ∨
          (b1.IsOpen ∧ b1.Admits loop) := by
      intro b1 hrun
      have hext := extending_lower symbols loop stmt hopen hadmits hrun
      obtain ⟨-, hclosed⟩ := ends_lower symbols loop stmt hopen hadmits hrun
      cases hexits : stmt.alwaysExits with
      | true =>
        rw [hexits] at hclosed
        exact .inl ⟨lowerBlock_of_closed hclosed rest, allLowerable_of_dead (hdead hexits)⟩
      | false =>
        rw [hexits] at hclosed
        exact .inr ⟨Builder.openAt_of_not_closed (hext.current_lt hopen.lt) hclosed,
          hadmits.mono hext.length_le⟩
    have hlater := decides_lowerBlock rest (fun s hs => hwell s (by simp [hs])) hrest hloop
    rw [allLowerable]
    refine ⟨fun b' h => ?_, fun fault h => ?_⟩
    · obtain ⟨b1, hrun, hrun'⟩ := lowerBlock_cons_stages hopen h
      obtain ⟨hlowerable, hb1⟩ := hok b1 hrun
      rcases hnext b1 hrun with ⟨hdone, hlowerable'⟩ | ⟨hopen1, hadmits1⟩
      · rw [hdone] at hrun'
        cases hrun'
        exact ⟨by rw [hlowerable, hlowerable']; rfl, hb1.mono (List.subset_append_right _ _)⟩
      · obtain ⟨hlowerable', hb'⟩ := (hlater hopen1 hadmits1 hb1).1 b' hrun'
        refine ⟨by rw [hlowerable, hlowerable']; rfl, hb'.mono ?_⟩
        exact List.subset_append_right _ _
    · rcases lowerBlock_cons_fault hopen h with hrun | ⟨b1, hrun, hrun'⟩
      · obtain ⟨hlowerable, hproblem⟩ := hfault fault hrun
        exact ⟨by rw [hlowerable]; rfl, hproblem⟩
      · rcases hnext b1 hrun with ⟨hdone, -⟩ | ⟨hopen1, hadmits1⟩
        · rw [hdone] at hrun'
          cases hrun'
        · obtain ⟨hlowerable', hproblem⟩ :=
            (hlater hopen1 hadmits1 (hok b1 hrun).2).2 fault hrun'
          exact ⟨by rw [hlowerable', Bool.and_false], hproblem⟩

end

end Typed.Stmt

/-! ### Functions -/

namespace Lowering

open Lower (Decides bind_eq_ok bind_eq_error)

variable {symbols : SymbolTable}

variable {known : List SymbolId}

theorem holds_params (symbols : SymbolTable) (ids : List SymbolId) {b : Builder} (next : Nat)
    (hb : b.Holds known) :
    ∃ b', params symbols next ids b = .ok ((), b') ∧ b'.Holds (ids.reverse ++ known) := by
  induction ids generalizing next known b with
  | nil => exact ⟨b, rfl, hb⟩
  | cons symbol _ ih =>
    have hparam : (b.withParam symbol (symbols.symbolAt symbol).ty.shape next).Holds
        (symbol :: known) :=
      (hb.of_slots rfl).withVariable symbol b.nextRegister
    obtain ⟨b', hrun, hb'⟩ := ih (next + 1) hparam
    refine ⟨b', ?_, by simpa using hb'⟩
    rw [params]
    exact hrun

theorem decides_body {returnType : Ty} (returnsVoid : Bool) {body : Typed.Body}
    (hwell : body.WellTyped symbols returnType) (hscoped : body.WellScoped symbols known) :
    Decides none known [] body.isLowerable (Lowering.body symbols returnsVoid body) := by
  cases body with
  | empty => exact .of_total (.pure _)
  | block stmts _ => exact Typed.Stmt.decides_lowerBlock stmts hwell hscoped (by simp)
  | expression _ =>
    exact .of_total ((Typed.Expr.total_lowerValue hwell.1 hscoped).bind fun _ => .close _)

/-- The code of a checked function can be made, unless a form that is not supported occurs in it. -/
theorem decides_code {f : Typed.Function} {signature : Signature} (returnsVoid : Bool)
    (hwell : f.WellTyped symbols signature) (hscoped : f.WellScoped symbols) :
    (∀ b, code symbols returnsVoid f .start = .ok ((), b) → f.body.isLowerable = true) ∧
      ∀ fault, code symbols returnsVoid f .start = .error fault →
        f.body.isLowerable = false ∧ fault.problem.IsUnsupported := by
  have hstart : Builder.start.Holds [] := by simp [Builder.Holds]
  obtain ⟨b1, hparams, hb1⟩ := holds_params symbols f.params 0 hstart
  rw [List.append_nil] at hb1
  have hopen := (advances_params symbols f.params 0 Builder.isOpen_start hparams).2
  obtain ⟨hok, hfault⟩ := decides_body returnsVoid hwell.body hscoped hopen
    (Builder.admits_none b1) hb1
  refine ⟨fun b h => ?_, fun fault h => ?_⟩
  · obtain ⟨_, _, hrun, h⟩ := bind_eq_ok.mp h
    rw [hparams] at hrun
    cases hrun
    exact (hok b h).1
  · rcases bind_eq_error.mp h with hrun | ⟨_, _, hrun, h⟩
    · rw [hparams] at hrun
      cases hrun
    · rw [hparams] at hrun
      cases hrun
      exact hfault fault h

end Lowering

/-- Whether the function can be lowered: no form that is not supported occurs in it, and if it
returns a value, control never gets to its end without one. -/
def Typed.Function.isLowerable (symbols : SymbolTable) (f : Typed.Function) : Bool :=
  f.body.isLowerable && (f.returnsVoid symbols || f.body.alwaysExits)

theorem Typed.Function.isLowerable_iff {symbols : SymbolTable} {f : Typed.Function} :
    f.isLowerable symbols = true ↔ f.body.isLowerable = true ∧
      (f.returnsVoid symbols = true ∨ f.body.alwaysExits = true) := by
  rw [isLowerable, Bool.and_eq_true, Bool.or_eq_true]

/-- Why a function that cannot be lowered is refused. -/
def Typed.Function.Refused (f : Typed.Function) (problem : Problem) : Prop :=
  problem.IsUnsupported ∨ problem = .missingReturn f.name

namespace Lowering

variable {symbols : SymbolTable}

variable {f : Typed.Function} {signature : Signature}

theorem decides_blocks (hwell : f.WellTyped symbols signature) (hscoped : f.WellScoped symbols) :
    (∀ bs, blocks symbols (f.returnsVoid symbols) f = .ok bs → f.isLowerable symbols = true) ∧
      ∀ fault, blocks symbols (f.returnsVoid symbols) f = .error fault →
        f.isLowerable symbols = false ∧ f.Refused fault.problem := by
  obtain ⟨hok, hfault⟩ := decides_code (f.returnsVoid symbols) hwell hscoped
  unfold blocks Typed.Function.isLowerable
  cases hcode : code symbols (f.returnsVoid symbols) f .start with
  | error fault =>
    refine ⟨fun _ h => (by cases h), ?_⟩
    rintro _ ⟨⟩
    obtain ⟨hlowerable, hproblem⟩ := hfault fault hcode
    exact ⟨by rw [hlowerable]; rfl, .inl hproblem⟩
  | ok result =>
    obtain ⟨⟨⟩, b⟩ := result
    show (∀ bs, complete _ f b.blocks = .ok bs → _) ∧
      ∀ fault, complete _ f b.blocks = .error fault → _
    rw [hok b hcode, Bool.true_and, complete_code hcode]
    split
    · rename_i hexits
      exact ⟨fun _ _ => hexits, fun _ h => by cases h⟩
    · rename_i hexits
      refine ⟨fun _ h => (by cases h), ?_⟩
      rintro _ ⟨⟩
      exact ⟨by simpa using hexits, .inr rfl⟩

theorem decides_addFunction (m : Module) (hwell : f.WellTyped symbols signature)
    (hscoped : f.WellScoped symbols) :
    (∀ m', addFunction symbols m f = .ok m' → f.isDefined = true → f.isLowerable symbols = true) ∧
      ∀ fault, addFunction symbols m f = .error fault →
        f.isDefined = true ∧ f.isLowerable symbols = false ∧ f.Refused fault.problem := by
  obtain ⟨symbol, hsymbol, -, hsignature⟩ := hwell.symbol
  have hvoid : f.returnsVoid symbols = signature.returnType.isVoid := by
    simp [Typed.Function.returnsVoid, SymbolTable.symbolAt_eq hsymbol, hsignature]
  obtain ⟨hok, hfault⟩ := decides_blocks hwell hscoped
  rw [hvoid] at hok hfault
  simp only [addFunction, SymbolTable.symbolAt_eq hsymbol, hsignature]
  cases hbody : f.body with
  | empty => exact ⟨fun _ _ hdefined => by simp [Typed.Function.isDefined, hbody] at hdefined,
      fun _ h => by cases h⟩
  | _ =>
    cases hblocks : blocks symbols signature.returnType.isVoid f with
    | ok bs => exact ⟨fun _ _ _ => hok bs hblocks, fun _ h => by cases h⟩
    | error fault =>
      refine ⟨fun _ h => (by cases h), ?_⟩
      rintro _ ⟨⟩
      exact ⟨by simp [Typed.Function.isDefined, hbody], hfault fault hblocks⟩

/-- Declarations of a checked program can be lowered if all functions with a body can. Otherwise one
of these is refused. -/
theorem decides_foldlM {decls : List Typed.Decl} (m : Module)
    (hdecls : ∀ f, .function f ∈ decls →
      (∃ signature, f.WellTyped symbols signature) ∧ f.WellScoped symbols) :
    (∀ m', decls.foldlM (addDecl symbols) m = .ok m' →
        ∀ f, .function f ∈ decls → f.isDefined = true → f.isLowerable symbols = true) ∧
      ∀ fault, decls.foldlM (addDecl symbols) m = .error fault →
        ∃ f, .function f ∈ decls ∧ f.isDefined = true ∧ f.isLowerable symbols = false ∧
          f.Refused fault.problem := by
  induction decls generalizing m with
  | nil => exact ⟨fun _ _ _ hf => (by cases hf), fun _ h => by cases h⟩
  | cons decl _ ih =>
    rw [List.foldlM_cons]
    -- The first declaration fails only if it is a function that is refused.
    have hfirst : (∀ m', addDecl symbols m decl = .ok m' →
          ∀ f, decl = .function f → f.isDefined = true → f.isLowerable symbols = true) ∧
        ∀ fault, addDecl symbols m decl = .error fault → ∃ f, decl = .function f ∧
          f.isDefined = true ∧ f.isLowerable symbols = false ∧ f.Refused fault.problem := by
      cases decl with
      | struct _ _ =>
        refine ⟨fun _ _ _ hf => (by cases hf), fun fault h => ?_⟩
        simp only [addDecl] at h
        split at h <;> cases h
      | enum _ _ => exact ⟨fun _ _ _ hf => (by cases hf), fun _ h => by cases h⟩
      | function f =>
        obtain ⟨⟨_, hwell⟩, hscoped⟩ := hdecls f (by simp)
        obtain ⟨hok, hfault⟩ := decides_addFunction m hwell hscoped
        refine ⟨?_, fun fault h => ⟨f, rfl, hfault fault h⟩⟩
        rintro m' h _ ⟨⟩
        exact hok m' h
    obtain ⟨hok, hfault⟩ := hfirst
    cases hdecl : addDecl symbols m decl with
    | error fault =>
      refine ⟨fun _ h => (by cases h), ?_⟩
      rintro _ ⟨⟩
      obtain ⟨f, rfl, hf⟩ := hfault fault hdecl
      exact ⟨f, by simp, hf⟩
    | ok m1 =>
      obtain ⟨hok', hfault'⟩ := ih m1 fun f hf => hdecls f (by simp [hf])
      refine ⟨fun m' h f hf hdefined => ?_, fun fault h => ?_⟩
      · rcases List.mem_cons.mp hf with hf | hf
        · exact hok m1 hdecl f hf.symm hdefined
        · exact hok' m' h f hf hdefined
      · obtain ⟨f, hf, hrest⟩ := hfault' fault h
        exact ⟨f, by simp [hf], hrest⟩

end Lowering

/-! ### Programs -/

/-- What would be said if checking had let something pass that there is no code for. -/
def Problem.IsInternal : Problem → Prop
  | .notAFunction _ | .noStorage _ | .strayLoopControl | .notIndexable _ | .noFields _ => True
  | _ => False

/-- An accepted program is lowered exactly if each function with a body can be: no `yield` and no
loop with an `else` body stands outside of dead code, and a function that returns a value has an
expression for its body or always exits. Otherwise one error is added that names one of these three
reasons. -/
theorem accepted_lowers_iff {keepGoing : Bool} {trees : List SyntaxTree} {p : Typed.Program}
    (h : (checkProgram keepGoing trees).program = some p) (name : String) :
    ((∃ m, p.lower name = .ok m) ↔
      ∀ f ∈ Typed.Decl.definedFunctions p.decls, f.body.isLowerable = true ∧
        (f.returnsVoid p.symbols = true ∨ f.body.alwaysExits = true)) ∧
    ∀ fault, p.lower name = .error fault →
      (fault.problem.message = "`yield` cannot be lowered yet" ∨
        fault.problem.message = "`while` with an `else` body cannot be lowered" ∨
        ∃ f ∈ Typed.Decl.definedFunctions p.decls, fault.problem.message =
          "not all code paths return a value in function " ++ Problem.ticked f.name) ∧
      ¬ fault.problem.IsInternal ∧
      (Compilation.build keepGoing name trees).module = none ∧
      (Compilation.build keepGoing name trees).diagnostics =
        (Compilation.check keepGoing trees).diagnostics ++
          [⟨.error, fault.span, fault.problem.message⟩] := by
  obtain ⟨hok, hfault⟩ := Lowering.decides_foldlM (.empty name) fun f hf =>
    ⟨(accepted_wellTyped h).2 f hf, (accepted_wellScoped h).2 f hf⟩
  refine ⟨⟨fun ⟨m, hm⟩ f hf => ?_, fun hall => ?_⟩, fun fault hrun => ?_⟩
  · obtain ⟨hmem, hdefined⟩ := Typed.Decl.mem_definedFunctions.mp hf
    exact Typed.Function.isLowerable_iff.mp (hok m hm f hmem hdefined)
  · cases hrun : p.lower name with
    | ok m => exact ⟨m, rfl⟩
    | error fault =>
      obtain ⟨f, hmem, hdefined, hrefused, -⟩ := hfault fault hrun
      have hf := Typed.Function.isLowerable_iff.mpr
        (hall f (Typed.Decl.mem_definedFunctions.mpr ⟨hmem, hdefined⟩))
      rw [hrefused] at hf
      cases hf
  · obtain ⟨f, hmem, hdefined, -, hproblem⟩ := hfault fault hrun
    have hbuild : Compilation.build keepGoing name trees =
        { Compilation.check keepGoing trees with
          diagnostics := (Compilation.check keepGoing trees).diagnostics ++
            [(Finding.fault fault).toDiagnostic] } := by
      simp only [Compilation.build, Compilation.check, h, hrun]
    refine ⟨?_, ?_, by rw [hbuild]; rfl, by rw [hbuild]; rfl⟩
    · rcases hproblem with (hproblem | hproblem) | hproblem
      · exact Or.inl (by rw [hproblem]; rfl)
      · exact Or.inr (Or.inl (by rw [hproblem]; rfl))
      · refine Or.inr (Or.inr ⟨f, Typed.Decl.mem_definedFunctions.mpr ⟨hmem, hdefined⟩, ?_⟩)
        rw [hproblem]
        rfl
    · rcases hproblem with (hproblem | hproblem) | hproblem <;>
      · rw [hproblem]
        exact id

open Plain in
/-- A file with a function that only sometimes returns a value:
`int pick(bool first) { if (first) return 1; }`. -/
def SyntaxTree.pick : SyntaxTree :=
  { sourceName := "pick"
    decls := [function (keyword "int") "pick" [param (keyword "bool") "first"]
      [.conditional (name "first") (ret (number 1)) none .nowhere]] }

theorem accepted_lowers_iff_pick :
    ∃ p fault, (checkProgram false [.pick]).program = some p ∧ p.lower "pick" = .error fault ∧
      ¬ fault.problem.IsInternal ∧ (Compilation.build false "pick" [.pick]).module = none := by
  have htest : ((checkProgram false [.pick]).program.any fun p =>
      (Typed.Decl.definedFunctions p.decls).any fun f => !f.isLowerable p.symbols) = true := by
    decide +kernel
  obtain ⟨p, hp, hany⟩ := (Option.any_eq_true _ _).mp htest
  obtain ⟨f, hf, hrefused⟩ := List.any_eq_true.mp hany
  obtain ⟨hiff, hfault⟩ := accepted_lowers_iff hp "pick"
  cases hrun : p.lower "pick" with
  | ok m =>
    have hlowerable := Typed.Function.isLowerable_iff.mpr (hiff.mp ⟨m, hrun⟩ f hf)
    rw [hlowerable] at hrefused
    cases hrefused
  | error fault =>
    obtain ⟨-, hinternal, hnone, -⟩ := hfault fault hrun
    exact ⟨p, fault, hp, hrun, hinternal, hnone⟩

end Laye
