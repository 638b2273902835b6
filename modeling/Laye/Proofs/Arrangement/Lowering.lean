import Laye.Proofs.Arrangement.Alike
import Laye.Proofs.Lowering.Modules
import Laye.Proofs.Typing.Weakening

/-!
# Lowering does not see ids and spans

Lowering trees that are alike gives the same code. `Builder.Alike` relates builders that hold the
same code and in which related variables have the same slot; `Lower.Alike` says of two steps that
they keep this and give the same result. The main statement is `Lowering.alike_addDecl`:
declarations that are alike add the same part to a module.

Lowering also reads nothing of the symbols but those that a tree mentions, so variables that are
added later do not change the code (`Lowering.addFunction_eq`).
-/

namespace Laye

open SymbolTable (symbolAt_eq)

variable {g : SpanMap} {ρ : SymbolId → SymbolId → Prop}

/-! ### Steps -/

/-- The builders hold the same code, and related variables have the same slot. -/
structure Builder.Alike (ρ : SymbolId → SymbolId → Prop) (b b' : Builder) : Prop where
  blocks_eq : b.blocks = b'.blocks
  current_eq : b.current = b'.current
  nextRegister_eq : b.nextRegister = b'.nextRegister
  slots : ∀ id id', ρ id id' → b.slotOf? id = b'.slotOf? id'

/-- From builders that are alike, both steps stop at the same fault, or go on to builders that are
alike with one result. -/
def Lower.Alike {α : Type} (g : SpanMap) (ρ : SymbolId → SymbolId → Prop) (x y : Lower α) : Prop :=
  ∀ b b', b.Alike ρ b' →
    SameOutcome g (fun r r' => r.1 = r'.1 ∧ r.2.Alike ρ r'.2) (x b) (y b')

namespace Lower.Alike

variable {α β : Type} {x y : Lower α}

theorem pure (a : α) : Lower.Alike g ρ (Pure.pure a) (Pure.pure a) := fun _ _ hb => ⟨rfl, hb⟩

theorem bind {f f' : α → Lower β} (h : Lower.Alike g ρ x y)
    (hnext : ∀ a, Lower.Alike g ρ (f a) (f' a)) : Lower.Alike g ρ (x >>= f) (y >>= f') := by
  intro b b' hb
  refine (h b b' hb).bind fun r r' hr => ?_
  obtain ⟨a, b⟩ := r
  obtain ⟨_, b'⟩ := r'
  obtain ⟨rfl, hb⟩ := hr
  exact hnext a b b' hb

theorem refuse (span : Span) (problem : Problem) :
    Lower.Alike g ρ (Lower.refuse span problem : Lower α) (Lower.refuse (g span) problem) :=
  fun _ _ _ => rfl

theorem freshRegister : Lower.Alike g ρ Lower.freshRegister Lower.freshRegister := by
  rintro ⟨blocks, current, next, slots⟩ ⟨_, _, _, slots'⟩ ⟨rfl, rfl, rfl, hslots⟩
  exact ⟨rfl, rfl, rfl, rfl, hslots⟩

theorem emit (i : IR.Instruction) : Lower.Alike g ρ (Lower.emit i) (Lower.emit i) := by
  rintro ⟨blocks, current, next, slots⟩ ⟨_, _, _, slots'⟩ ⟨rfl, rfl, rfl, hslots⟩
  exact ⟨rfl, rfl, rfl, rfl, hslots⟩

theorem define (i : IR.Register → IR.Instruction) :
    Lower.Alike g ρ (Lower.define i) (Lower.define i) :=
  freshRegister.bind fun _ => (emit _).bind fun _ => pure _

theorem reserve (ty : IR.Ty) : Lower.Alike g ρ (Lower.reserve ty) (Lower.reserve ty) := by
  refine freshRegister.bind fun dest => ?_
  rintro ⟨blocks, current, next, slots⟩ ⟨_, _, _, slots'⟩ ⟨rfl, rfl, rfl, hslots⟩
  exact ⟨rfl, rfl, rfl, rfl, hslots⟩

theorem newBlock (label : String) :
    Lower.Alike g ρ (Lower.newBlock label) (Lower.newBlock label) := by
  rintro ⟨blocks, current, next, slots⟩ ⟨_, _, _, slots'⟩ ⟨rfl, rfl, rfl, hslots⟩
  exact ⟨rfl, rfl, rfl, rfl, hslots⟩

theorem currentBlock : Lower.Alike g ρ Lower.currentBlock Lower.currentBlock := by
  rintro ⟨blocks, current, next, slots⟩ ⟨_, _, _, slots'⟩ ⟨rfl, rfl, rfl, hslots⟩
  exact ⟨rfl, rfl, rfl, rfl, hslots⟩

theorem moveTo (id : IR.BlockId) : Lower.Alike g ρ (Lower.moveTo id) (Lower.moveTo id) := by
  rintro ⟨blocks, current, next, slots⟩ ⟨_, _, _, slots'⟩ ⟨rfl, rfl, rfl, hslots⟩
  exact ⟨rfl, rfl, rfl, rfl, hslots⟩

theorem isClosed (id : IR.BlockId) : Lower.Alike g ρ (Lower.isClosed id) (Lower.isClosed id) := by
  rintro ⟨blocks, current, next, slots⟩ ⟨_, _, _, slots'⟩ ⟨rfl, rfl, rfl, hslots⟩
  exact ⟨rfl, rfl, rfl, rfl, hslots⟩

theorem closeBlock (id : IR.BlockId) (t : IR.Terminator) :
    Lower.Alike g ρ (Lower.closeBlock id t) (Lower.closeBlock id t) := by
  rintro ⟨blocks, current, next, slots⟩ ⟨_, _, _, slots'⟩ ⟨rfl, rfl, rfl, hslots⟩
  exact ⟨rfl, rfl, rfl, rfl, hslots⟩

theorem close (t : IR.Terminator) : Lower.Alike g ρ (Lower.close t) (Lower.close t) :=
  currentBlock.bind fun id => closeBlock id t

theorem fallFrom (id target : IR.BlockId) :
    Lower.Alike g ρ (Lower.fallFrom id target) (Lower.fallFrom id target) := by
  refine (isClosed id).bind fun closed => ?_
  cases closed with
  | true => exact pure ()
  | false => exact closeBlock id _

theorem fallInto (target : IR.BlockId) :
    Lower.Alike g ρ (Lower.fallInto target) (Lower.fallInto target) :=
  currentBlock.bind fun id => fallFrom id target

theorem bindSlot (hρ : PairsOff ρ) {id id' : SymbolId} (hid : ρ id id') (slot : IR.Register) :
    Lower.Alike g ρ (Lower.bindSlot id slot) (Lower.bindSlot id' slot) := by
  rintro ⟨blocks, current, next, slots⟩ ⟨_, _, _, slots'⟩ ⟨rfl, rfl, rfl, hslots⟩
  refine ⟨rfl, rfl, rfl, rfl, fun other other' hother => ?_⟩
  have hsame := hρ hother hid
  simp only [Builder.slotOf?, List.lookup_cons]
  by_cases heq : other = id
  · simp [heq, hsame.mp heq]
  · have heq' : ¬other' = id' := fun h => heq (hsame.mpr h)
    rw [beq_eq_false_iff_ne.mpr heq, beq_eq_false_iff_ne.mpr heq']
    exact hslots other other' hother

theorem slotOf? {id id' : SymbolId} (hid : ρ id id') :
    Lower.Alike g ρ (Lower.slotOf? id) (Lower.slotOf? id') :=
  fun _ _ hb => ⟨hb.slots id id' hid, hb⟩

end Lower.Alike

/-! ### Expressions -/

open Lower.Alike

theorem Operand.alike_load (ty : Ty) (operand : Operand) :
    Lower.Alike g ρ (operand.load ty) (operand.load ty) := by
  cases operand with
  | value v => exact pure v
  | place _ => exact define _

theorem Operand.alike_address (ty : Ty) (operand : Operand) :
    Lower.Alike g ρ (operand.address ty) (operand.address ty) := by
  cases operand with
  | place ptr => exact pure ptr
  | value v => exact (reserve _).bind fun _ => (emit _).bind fun _ => pure _

namespace Lowering

theorem alike_computed (i : IR.Register → IR.Instruction) :
    Lower.Alike g ρ (computed i) (computed i) :=
  (define i).bind fun _ => pure _

theorem alike_symbol {symbols symbols' : SymbolTable} {id id' : SymbolId} (hid : ρ id id')
    (hsymbol : (symbols.symbolAt id).Alike (symbols'.symbolAt id')) (span : Span) :
    Lower.Alike g ρ (symbol symbols id span) (symbol symbols' id' (g span)) := by
  refine (Lower.Alike.slotOf? hid).bind fun slot => ?_
  cases slot with
  | some _ => exact pure _
  | none =>
    simp only [hsymbol.kind_eq, hsymbol.name_eq]
    split
    · exact pure _
    · exact refuse _ _

theorem alike_call (name : String) (ty : Ty) (args : List IR.Value) :
    Lower.Alike g ρ (call name ty args) (call name ty args) := by
  unfold call
  split
  · exact (emit _).bind fun _ => pure _
  · exact alike_computed _

theorem alike_shortCircuit (isAnd : Bool) {left left' right right' : Lower IR.Value}
    (hleft : Lower.Alike g ρ left left') (hright : Lower.Alike g ρ right right') :
    Lower.Alike g ρ (shortCircuit isAnd left right) (shortCircuit isAnd left' right') :=
  (reserve _).bind fun _ => hleft.bind fun _ => (emit _).bind fun _ => (newBlock _).bind fun _ =>
    (newBlock _).bind fun _ => (close _).bind fun _ => (moveTo _).bind fun _ =>
      hright.bind fun _ => (emit _).bind fun _ => (fallInto _).bind fun _ =>
        (moveTo _).bind fun _ => alike_computed _

variable {target target' : Typed.Expr} {lowered lowered' : Lower Operand}

theorem alike_elements (htarget : target.Alike g ρ target') (h : Lower.Alike g ρ lowered lowered') :
    Lower.Alike g ρ (elements target lowered) (elements target' lowered') := by
  have hload : ∀ ty, Lower.Alike g ρ (lowered >>= fun operand => operand.load ty)
      (lowered' >>= fun operand => operand.load ty) :=
    fun ty => h.bind fun operand => operand.alike_load ty
  unfold elements
  rw [htarget.ty_eq, htarget.span_eq]
  cases target'.ty with
  | array _ _ _ => exact h.bind fun operand => operand.alike_address _
  | pointer _ _ | buffer _ _ | rawptr => exact hload _
  | slice _ _ | string => exact h.bind fun operand => (operand.alike_load _).bind fun _ => define _
  | _ => exact refuse _ _

theorem alike_element (ty : Ty) {base base' index index' : Lower IR.Value}
    (hbase : Lower.Alike g ρ base base') (hindex : Lower.Alike g ρ index index') :
    Lower.Alike g ρ (element ty base index) (element ty base' index') :=
  hbase.bind fun _ => hindex.bind fun _ => (define _).bind fun _ => pure _

theorem alike_field (htarget : target.Alike g ρ target') (h : Lower.Alike g ρ lowered lowered')
    (place : Nat) :
    Lower.Alike g ρ (field target lowered place) (field target' lowered' place) := by
  unfold field
  rw [htarget.ty_eq, htarget.span_eq]
  cases target'.ty with
  | struct _ _ _ =>
    exact h.bind fun operand => (operand.alike_address _).bind fun _ =>
      (define _).bind fun _ => pure _
  | _ => exact refuse _ _

end Lowering

namespace Typed.Expr

variable {symbols symbols' : SymbolTable}

mutual

/-- Expressions that are alike have the same code. -/
theorem Alike.lower (hsymbols : symbols.Alike ρ symbols') {e e' : Expr} (h : e.Alike g ρ e') :
    Lower.Alike g ρ (e.lower symbols) (e'.lower symbols') := by
  cases h with
  | integer | float | bool | string => exact pure _
  | load _ span hid => exact Lowering.alike_symbol hid (hsymbols.symbol _ _ hid) span
  | cast _ _ hinner | materialize _ _ hinner | unary _ _ _ hinner =>
    simp only [Expr.lower, hinner.ty_eq]
    exact (Alike.lower hsymbols hinner).bind fun operand =>
      (operand.alike_load _).bind fun _ => Lowering.alike_computed _
  | invoke _ _ hfunction hargs =>
    simp only [Expr.lower, (hsymbols.symbol _ _ hfunction).name_eq]
    exact (Alike.lowerAll hsymbols hargs).bind fun _ => Lowering.alike_call _ _ _
  | binary _ _ _ hleft hright =>
    simp only [Expr.lower, hleft.ty_eq, hright.ty_eq]
    split
    · exact Lowering.alike_shortCircuit _
        ((Alike.lower hsymbols hleft).bind fun operand => operand.alike_load _)
        ((Alike.lower hsymbols hright).bind fun operand => operand.alike_load _)
    · exact (Alike.lower hsymbols hleft).bind fun operand => (operand.alike_load _).bind fun _ =>
        (Alike.lower hsymbols hright).bind fun operand => (operand.alike_load _).bind fun _ =>
          Lowering.alike_computed _
  | addressOf _ _ hinner =>
    simp only [Expr.lower, hinner.ty_eq]
    exact (Alike.lower hsymbols hinner).bind fun operand =>
      (operand.alike_address _).bind fun _ => pure _
  | dereference _ _ hinner =>
    simp only [Expr.lower, hinner.ty_eq]
    exact (Alike.lower hsymbols hinner).bind fun operand =>
      (operand.alike_load _).bind fun _ => pure _
  | index ty _ htarget hi =>
    simp only [Expr.lower, hi.ty_eq]
    exact Lowering.alike_element ty
      (Lowering.alike_elements htarget (Alike.lower hsymbols htarget))
      ((Alike.lower hsymbols hi).bind fun operand => operand.alike_load _)
  | field _ _ _ place htarget =>
    exact Lowering.alike_field htarget (Alike.lower hsymbols htarget) place

theorem Alike.lowerAll (hsymbols : symbols.Alike ρ symbols') {es es' : List Expr}
    (h : List.Forall₂ (Expr.Alike g ρ) es es') :
    Lower.Alike g ρ (Expr.lowerAll symbols es) (Expr.lowerAll symbols' es') := by
  cases h with
  | nil => exact pure _
  | cons he hes =>
    simp only [Expr.lowerAll, he.ty_eq]
    exact (Alike.lower hsymbols he).bind fun operand => (operand.alike_load _).bind fun _ =>
      (Alike.lowerAll hsymbols hes).bind fun _ => pure _

end

theorem Alike.lowerValue (hsymbols : symbols.Alike ρ symbols') {e e' : Expr} (h : e.Alike g ρ e') :
    Lower.Alike g ρ (e.lowerValue symbols) (e'.lowerValue symbols') := by
  unfold Expr.lowerValue
  rw [h.ty_eq]
  exact (h.lower hsymbols).bind fun operand => operand.alike_load _

theorem Alike.lowerAddress (hsymbols : symbols.Alike ρ symbols') {e e' : Expr}
    (h : e.Alike g ρ e') :
    Lower.Alike g ρ (e.lowerAddress symbols) (e'.lowerAddress symbols') := by
  unfold Expr.lowerAddress
  rw [h.ty_eq]
  exact (h.lower hsymbols).bind fun operand => operand.alike_address _

end Typed.Expr

/-! ### Statements -/

namespace Lowering

variable {symbols symbols' : SymbolTable}

variable {condition condition' : Lower IR.Value} {value value' : Option Typed.Expr}

theorem alike_ifThen {thenBody thenBody' : Lower Unit}
    (hcondition : Lower.Alike g ρ condition condition')
    (hthen : Lower.Alike g ρ thenBody thenBody') :
    Lower.Alike g ρ (ifThen condition thenBody) (ifThen condition' thenBody') :=
  hcondition.bind fun _ => (newBlock _).bind fun _ => (newBlock _).bind fun _ =>
    (close _).bind fun _ => (moveTo _).bind fun _ => hthen.bind fun _ =>
      (fallInto _).bind fun _ => moveTo _

theorem alike_join (thenExit elseExit : IR.BlockId) :
    Lower.Alike g ρ (join thenExit elseExit) (join thenExit elseExit) := by
  refine (isClosed _).bind fun _ => (isClosed _).bind fun _ => ?_
  split
  · exact pure ()
  · exact (newBlock _).bind fun _ => (fallFrom _ _).bind fun _ => (fallFrom _ _).bind fun _ =>
      moveTo _

theorem alike_ifThenElse {thenBody thenBody' elseBody elseBody' : Lower Unit}
    (hcondition : Lower.Alike g ρ condition condition') (hthen : Lower.Alike g ρ thenBody thenBody')
    (helse : Lower.Alike g ρ elseBody elseBody') :
    Lower.Alike g ρ (ifThenElse condition thenBody elseBody)
      (ifThenElse condition' thenBody' elseBody') :=
  hcondition.bind fun _ => (newBlock _).bind fun _ => (newBlock _).bind fun _ =>
    (close _).bind fun _ => (moveTo _).bind fun _ => hthen.bind fun _ =>
      currentBlock.bind fun _ => (moveTo _).bind fun _ => helse.bind fun _ =>
        currentBlock.bind fun _ => alike_join _ _

theorem alike_loop {body body' : LoopTargets → Lower Unit}
    (hcondition : Lower.Alike g ρ condition condition')
    (hbody : ∀ targets, Lower.Alike g ρ (body targets) (body' targets)) :
    Lower.Alike g ρ (loop condition body) (loop condition' body') :=
  (newBlock _).bind fun _ => (newBlock _).bind fun _ => (newBlock _).bind fun _ =>
    (fallInto _).bind fun _ => (moveTo _).bind fun _ => hcondition.bind fun _ =>
      (close _).bind fun _ => (moveTo _).bind fun _ => (hbody _).bind fun _ =>
        (fallInto _).bind fun _ => moveTo _

theorem alike_loopJump (loop : Option LoopTargets) (target : LoopTargets → IR.BlockId)
    (span : Span) :
    Lower.Alike g ρ (loopJump loop target span) (loopJump loop target (g span)) := by
  cases loop with
  | none => exact refuse _ _
  | some _ => exact close _

theorem alike_optionalValue (hsymbols : symbols.Alike ρ symbols')
    (h : Option.Rel (Typed.Expr.Alike g ρ) value value') :
    Lower.Alike g ρ (optionalValue symbols value) (optionalValue symbols' value') := by
  cases h with
  | none => exact pure _
  | some h => exact (h.lowerValue hsymbols).bind fun _ => pure _

theorem alike_binding (hρ : PairsOff ρ) (hsymbols : symbols.Alike ρ symbols') {id id' : SymbolId}
    (hid : ρ id id') (h : Option.Rel (Typed.Expr.Alike g ρ) value value') :
    Lower.Alike g ρ (binding symbols id value) (binding symbols' id' value') := by
  unfold binding
  rw [(hsymbols.symbol id id' hid).ty_eq]
  refine (reserve _).bind fun slot => (alike_optionalValue hsymbols h).bind fun value => ?_
  cases value with
  | none => exact (pure ()).bind fun _ => Lower.Alike.bindSlot hρ hid slot
  | some _ => exact (emit _).bind fun _ => Lower.Alike.bindSlot hρ hid slot

theorem alike_params (hρ : PairsOff ρ) (hsymbols : symbols.Alike ρ symbols') (next : Nat)
    {ids ids' : List SymbolId} (h : List.Forall₂ ρ ids ids') :
    Lower.Alike g ρ (params symbols next ids) (params symbols' next ids') := by
  induction h generalizing next with
  | nil => exact pure ()
  | cons hid _ ih =>
    unfold params
    rw [(hsymbols.symbol _ _ hid).ty_eq]
    exact (reserve _).bind fun slot => (emit _).bind fun _ =>
      (Lower.Alike.bindSlot hρ hid slot).bind fun _ => ih (next + 1)

end Lowering

namespace Typed.Stmt

variable {symbols symbols' : SymbolTable}

mutual

/-- Statements that are alike have the same code. -/
theorem Alike.lower (hρ : PairsOff ρ) (hsymbols : symbols.Alike ρ symbols')
    (loop : Option LoopTargets) {stmt stmt' : Stmt} (h : stmt.Alike g ρ stmt') :
    Lower.Alike g ρ (stmt.lower symbols loop) (stmt'.lower symbols' loop) := by
  cases h with
  | block _ hstmts =>
    exact Alike.lowerBlock hρ hsymbols loop hstmts
  | binding _ hid hvalue => exact Lowering.alike_binding hρ hsymbols hid hvalue
  | expression hvalue => exact (hvalue.lowerValue hsymbols).bind fun _ => pure _
  | ret _ hvalue => exact (Lowering.alike_optionalValue hsymbols hvalue).bind fun _ => close _
  | assign _ htarget hvalue =>
    exact (htarget.lowerAddress hsymbols).bind fun _ => (hvalue.lowerValue hsymbols).bind fun _ =>
      emit _
  | conditional _ hcondition hthen helse =>
    cases helse with
    | none =>
      exact Lowering.alike_ifThen (hcondition.lowerValue hsymbols)
        (Alike.lower hρ hsymbols loop hthen)
    | some helse =>
      exact Lowering.alike_ifThenElse (hcondition.lowerValue hsymbols)
        (Alike.lower hρ hsymbols loop hthen) (Alike.lower hρ hsymbols loop helse)
  | whileLoop _ hcondition hbody helse =>
    cases helse with
    | none =>
      exact Lowering.alike_loop (hcondition.lowerValue hsymbols) fun targets =>
        Alike.lower hρ hsymbols (some targets) hbody
    | some _ => exact refuse _ _
  | breakLoop span | continueLoop span => exact Lowering.alike_loopJump loop _ span
  | yield _ _ => exact refuse _ _
  | deadCode _ _ => exact pure _

theorem Alike.lowerBlock (hρ : PairsOff ρ) (hsymbols : symbols.Alike ρ symbols')
    (loop : Option LoopTargets) {stmts stmts' : List Stmt}
    (h : List.Forall₂ (Stmt.Alike g ρ) stmts stmts') :
    Lower.Alike g ρ (Stmt.lowerBlock symbols loop stmts)
      (Stmt.lowerBlock symbols' loop stmts') := by
  cases h with
  | nil =>
    exact pure _
  | cons hstmt hrest =>
    have hcode := (Alike.lower hρ hsymbols loop hstmt).bind fun _ =>
      Alike.lowerBlock hρ hsymbols loop hrest
    refine currentBlock.bind fun id => (isClosed id).bind fun closed => ?_
    cases closed with
    | true => exact pure ()
    | false => exact hcode

end

end Typed.Stmt

/-! ### Declarations -/

namespace Lowering

variable {symbols symbols' : SymbolTable} {f f' : Typed.Function}

section

variable (hρ : PairsOff ρ) (hsymbols : symbols.Alike ρ symbols')
include hρ hsymbols

theorem alike_body (returnsVoid : Bool) {b b' : Typed.Body} (h : b.Alike g ρ b') :
    Lower.Alike g ρ (body symbols returnsVoid b) (body symbols' returnsVoid b') := by
  cases h with
  | empty => exact pure ()
  | block _ hstmts => exact Typed.Stmt.Alike.lowerBlock hρ hsymbols none hstmts
  | expression hvalue => exact (hvalue.lowerValue hsymbols).bind fun _ => close _

theorem alike_blocks (returnsVoid : Bool) (h : f.Alike g ρ f') :
    SameOutcome g Eq (blocks symbols returnsVoid f) (blocks symbols' returnsVoid f') := by
  have hcode : Lower.Alike g ρ (code symbols returnsVoid f) (code symbols' returnsVoid f') :=
    (alike_params hρ hsymbols 0 h.params).bind fun _ => alike_body hρ hsymbols returnsVoid h.body
  refine (hcode .start .start ⟨rfl, rfl, rfl, fun _ _ _ => rfl⟩).bind ?_
  rintro ⟨⟨⟩, b⟩ ⟨⟨⟩, b'⟩ ⟨-, hb⟩
  have hblocks : b.blocks = b'.blocks := hb.blocks_eq
  simp only [complete, hblocks, h.name_eq, h.nameSpan_eq]
  exact .ite .rfl rfl (.ite .rfl rfl rfl)

theorem alike_addFunction (m : IR.Module) (h : f.Alike g ρ f') :
    SameOutcome g Eq (addFunction symbols m f) (addFunction symbols' m f') := by
  unfold addFunction
  rw [(hsymbols.symbol _ _ h.symbol).signature?_eq, h.name_eq, h.nameSpan_eq, h.library_eq]
  cases (symbols'.symbolAt f'.symbol).signature? with
  | none => rfl
  | some signature =>
    have hblocks := alike_blocks hρ hsymbols signature.returnType.isVoid h
    have hbody := h.body
    generalize f.body = body, f'.body = body' at hbody ⊢
    cases hbody with
    | empty => rfl
    | block | expression => exact hblocks.bind_eq fun _ => rfl

/-- Declarations that are alike add the same to the module. -/
theorem alike_addDecl (m : IR.Module) {d d' : Typed.Decl} (h : d.Alike g ρ d') :
    SameOutcome g Eq (addDecl symbols m d) (addDecl symbols' m d') := by
  cases h with
  | struct _ hid =>
    simp only [addDecl, (hsymbols.symbol _ _ hid).ty_eq]
    split <;> rfl
  | enum => rfl
  | function hf => exact alike_addFunction hρ hsymbols m hf

end

end Lowering

/-! ### Symbols that are added later -/

/-- A longer table has the same symbols at the places of the shorter one. -/
theorem SymbolTable.symbolAt_eq_of_isPrefix {symbols symbols' : SymbolTable}
    (h : symbols <+: symbols') {id : SymbolId} {symbol : Symbol}
    (hsymbol : symbols[id]? = some symbol) : symbols'.symbolAt id = symbol := by
  obtain ⟨_, rfl⟩ := h
  refine symbolAt_eq ?_
  rw [List.getElem?_append_left (List.getElem?_eq_some_iff.mp hsymbol).1, hsymbol]

namespace Typed

variable {symbols symbols' : SymbolTable}

theorem Expr.lowerAll_congr {es : List Expr} (h : ∀ e ∈ es, e.lower symbols' = e.lower symbols) :
    lowerAll symbols' es = lowerAll symbols es := by
  induction es with
  | nil => simp only [lowerAll]
  | cons e _ ih =>
    simp only [lowerAll, h e (by simp), ih fun e he => h e (by simp [he])]

theorem Expr.WellTyped.lower_eq (h : symbols <+: symbols') {e : Expr}
    (he : e.WellTyped symbols) : e.lower symbols' = e.lower symbols := by
  induction he with
  | integer | variant | float | bool | string => simp only [Expr.lower]
  | load _ hsymbol _ =>
    simp only [Expr.lower, Lowering.symbol, symbolAt_eq hsymbol,
      SymbolTable.symbolAt_eq_of_isPrefix h hsymbol]
  | invoke _ hsymbol _ _ _ ih =>
    simp only [Expr.lower, Expr.lowerAll_congr ih, symbolAt_eq hsymbol,
      SymbolTable.symbolAt_eq_of_isPrefix h hsymbol]
  | cast _ _ _ _ ih | materialize _ _ _ ih | unary _ _ _ ih | addressOf _ _ _ ih
  | dereference _ _ _ ih | field _ _ _ _ _ ih => simp only [Expr.lower, ih]
  | binary _ _ _ _ _ ihleft ihright => simp only [Expr.lower, ihleft, ihright]
  | index _ _ _ _ _ ihtarget ihi => simp only [Expr.lower, ihtarget, ihi]

theorem Expr.WellTyped.lowerValue_eq (h : symbols <+: symbols') {e : Expr}
    (he : e.WellTyped symbols) : e.lowerValue symbols' = e.lowerValue symbols := by
  simp only [Expr.lowerValue, he.lower_eq h]

theorem Expr.optionalValue_eq (h : symbols <+: symbols') {value : Option Expr}
    (hvalue : ∀ e, value = some e → e.WellTyped symbols) :
    Lowering.optionalValue symbols' value = Lowering.optionalValue symbols value := by
  cases value with
  | none => rfl
  | some e => simp only [Lowering.optionalValue, (hvalue e rfl).lowerValue_eq h]

theorem Stmt.lowerBlock_congr {stmts : List Stmt}
    (h : ∀ stmt ∈ stmts, ∀ loop, stmt.lower symbols' loop = stmt.lower symbols loop)
    (loop : Option LoopTargets) :
    lowerBlock symbols' loop stmts = lowerBlock symbols loop stmts := by
  induction stmts with
  | nil => simp only [lowerBlock]
  | cons stmt _ ih =>
    simp only [lowerBlock, h stmt (by simp), ih fun stmt hstmt => h stmt (by simp [hstmt])]

theorem Stmt.WellTyped.lower_eq (h : symbols <+: symbols') {returnType : Ty} {inLoop : Bool}
    {stmt : Stmt} (hstmt : stmt.WellTyped symbols returnType inLoop) (loop : Option LoopTargets) :
    stmt.lower symbols' loop = stmt.lower symbols loop := by
  induction hstmt generalizing loop with
  | block _ _ ih => simp only [Stmt.lower, Stmt.lowerBlock_congr ih]
  | binding _ hsymbol _ _ hvalue =>
    simp only [Stmt.lower, Lowering.binding, symbolAt_eq hsymbol,
      SymbolTable.symbolAt_eq_of_isPrefix h hsymbol,
      Expr.optionalValue_eq h fun e he => (hvalue e he).1]
  | expression hvalue => simp only [Stmt.lower, hvalue.lowerValue_eq h]
  | @ret _ value _ hvalue =>
    have hknown : ∀ e, value = some e → e.WellTyped symbols := by
      rintro e rfl
      exact hvalue.2.1
    simp only [Stmt.lower, Expr.optionalValue_eq h hknown]
  | assign _ htarget _ _ hvalue _ =>
    simp only [Stmt.lower, Expr.lowerAddress, htarget.lower_eq h, hvalue.lowerValue_eq h]
  | @conditional _ _ _ elseBody _ hcondition _ _ _ ihthen ihelse =>
    cases elseBody with
    | none => simp only [Stmt.lower, hcondition.lowerValue_eq h, ihthen]
    | some stmt => simp only [Stmt.lower, hcondition.lowerValue_eq h, ihthen, ihelse stmt rfl]
  | @whileLoop _ _ _ elseBody _ hcondition _ _ _ ihbody _ =>
    cases elseBody with
    | none => simp only [Stmt.lower, hcondition.lowerValue_eq h, ihbody]
    | some _ => simp only [Stmt.lower]
  | _ => simp only [Stmt.lower]

end Typed

namespace Lowering

variable {symbols symbols' : SymbolTable}

theorem params_eq (h : symbols <+: symbols') (next : Nat) {ids : List SymbolId} {tys : List Ty}
    (hids : List.Forall₂ (Typed.IsVariable symbols) ids tys) :
    params symbols' next ids = params symbols next ids := by
  induction hids generalizing next with
  | nil => rfl
  | cons hid _ ih =>
    obtain ⟨_, hsymbol, -, -⟩ := hid
    simp only [params, symbolAt_eq hsymbol,
      SymbolTable.symbolAt_eq_of_isPrefix h hsymbol, ih]

theorem body_eq (h : symbols <+: symbols') (returnsVoid : Bool) {returnType : Ty}
    {b : Typed.Body} (hb : b.WellTyped symbols returnType) :
    body symbols' returnsVoid b = body symbols returnsVoid b := by
  cases b with
  | empty => rfl
  | block _ _ =>
    exact Typed.Stmt.lowerBlock_congr (fun stmt hstmt loop => (hb stmt hstmt).lower_eq h loop) none
  | expression _ => simp only [body, hb.1.lowerValue_eq h]

/-- A function is lowered in the same way with more symbols in the table. -/
theorem addFunction_eq (h : symbols <+: symbols') (m : IR.Module) {f : Typed.Function}
    {signature : Signature} (hf : f.WellTyped symbols signature) :
    addFunction symbols' m f = addFunction symbols m f := by
  obtain ⟨symbol, hsymbol, -, -⟩ := hf.symbol
  simp only [addFunction, blocks, code, symbolAt_eq hsymbol,
    SymbolTable.symbolAt_eq_of_isPrefix h hsymbol, params_eq h 0 hf.params, body_eq h _ hf.body]

end Lowering

end Laye
