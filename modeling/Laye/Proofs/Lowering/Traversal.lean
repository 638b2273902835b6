import Laye.Proofs.Lowering.Stages
import Laye.Proofs.Typing.Writing

/-!
# What holds of all code

The code of an expression is put together from few steps. A property of steps that holds of these,
and is kept when steps are put together, holds of the code of every expression. What a call adds
depends on the expression it comes from, so calls are looked at one by one (`Lower.Plain.lower`),
unless the property holds of them all (`Lower.Closed.lower`).

A property that holds of every step on its own, in whatever block (`Lower.Uniform`), holds of the
code of a statement if it does of the expressions in it and of the variables that it declares
(`Typed.Stmt.keeps_lower`). -/

namespace Laye

/-- Whether an instruction is a call. -/
def IR.Instruction.isCall : IR.Instruction → Bool
  | .call _ _ _ => true
  | _ => false

/-! ### Expressions -/

/-- A property of steps that is kept when they are put together. -/
structure Lower.Sequential (P : {α : Type} → Lower α → Prop) : Prop where
  pure : ∀ {α : Type} (a : α), P (Pure.pure a)
  refuse : ∀ {α : Type} (span : Span) (problem : Problem), P (Lower.refuse span problem : Lower α)
  bind : ∀ {α β : Type} {x : Lower α} {f : α → Lower β}, P x → (∀ a, P (f a)) → P (x >>= f)

/-- A property of steps that holds of the steps of expressions other than calls, whatever they are
made of. -/
structure Lower.Plain (P : {α : Type} → Lower α → Prop) : Prop extends Lower.Sequential P where
  define : ∀ {i : IR.Register → IR.Instruction}, (∀ r, (i r).dest? = some r ∧
    (i r).isAlloca = false ∧ (i r).isCall = false) → P (Lower.define i)
  emit : ∀ {i : IR.Instruction}, i.dest? = none → i.isCall = false → P (Lower.emit i)
  reserve : ∀ ty, P (Lower.reserve ty)
  symbol : ∀ symbols id span, P (Lowering.symbol symbols id span)
  shortCircuit : ∀ {isAnd : Bool} {left right : Lower IR.Value}, P left → P right →
    P (Lowering.shortCircuit isAnd left right)

/-- A property that holds of calls too. -/
structure Lower.Closed (P : {α : Type} → Lower α → Prop) : Prop extends Lower.Plain P where
  call : ∀ name ty args, P (Lowering.call name ty args)

/-- If the expression is a call, the property holds of it if it holds of the arguments. -/
def Typed.Expr.KeepsCall (P : {α : Type} → Lower α → Prop) (symbols : SymbolTable) :
    Typed.Expr → Prop
  | .invoke ty span function args => P (lowerAll symbols args) →
      P (lower symbols (.invoke ty span function args))
  | _ => True

variable {P : {α : Type} → Lower α → Prop}

namespace Lower.Plain

section

variable (h : Plain P)
include h

theorem load (ty : Ty) (op : Operand) : P (op.load ty) := by
  cases op with
  | value v => exact h.pure v
  | place _ => exact h.define fun _ => ⟨rfl, rfl, rfl⟩

theorem address (ty : Ty) (op : Operand) : P (op.address ty) := by
  cases op with
  | value v => exact h.bind (h.reserve _) fun _ => h.bind (h.emit rfl rfl) fun _ => h.pure _
  | place ptr => exact h.pure ptr

theorem computed {i : IR.Register → IR.Instruction} (hi : ∀ r, (i r).dest? = some r ∧
    (i r).isAlloca = false ∧ (i r).isCall = false) : P (Lowering.computed i) :=
  h.bind (h.define hi) fun _ => h.pure _

variable {target e : Typed.Expr} {lowered : Lower Operand} {symbols : SymbolTable}

theorem elements (hlowered : P lowered) : P (Lowering.elements target lowered) := by
  unfold Lowering.elements
  cases target.ty with
  | array => exact h.bind hlowered fun op => h.address _ op
  | pointer | buffer | rawptr => exact h.bind hlowered fun op => h.load _ op
  | slice | string =>
    exact h.bind hlowered fun op => h.bind (h.load _ op) fun _ => h.define fun _ => ⟨rfl, rfl, rfl⟩
  | _ => exact h.refuse _ _

theorem element {ty : Ty} {base index : Lower IR.Value} (hbase : P base) (hindex : P index) :
    P (Lowering.element ty base index) :=
  h.bind hbase fun _ => h.bind hindex fun _ =>
    h.bind (h.define fun _ => ⟨rfl, rfl, rfl⟩) fun _ => h.pure _

theorem field (hlowered : P lowered) (place : Nat) : P (Lowering.field target lowered place) := by
  unfold Lowering.field
  split
  · exact h.bind hlowered fun op => h.bind (h.address _ op) fun _ =>
      h.bind (h.define fun _ => ⟨rfl, rfl, rfl⟩) fun _ => h.pure _
  · exact h.refuse _ _

theorem value (he : P (e.lower symbols)) : P (e.lowerValue symbols) :=
  h.bind he fun _ => h.load _ _

theorem addressOf (he : P (e.lower symbols)) : P (e.lowerAddress symbols) :=
  h.bind he fun _ => h.address _ _

theorem optional {value : Option Typed.Expr} (hvalue : ∀ e ∈ value, P (e.lower symbols)) :
    P (Lowering.optionalValue symbols value) := by
  cases value with
  | none => exact h.pure _
  | some e => exact h.bind (h.value (hvalue e rfl)) fun _ => h.pure _

end

mutual

/-- The property holds of the code of an expression if it does of the calls in it. -/
theorem lower (h : Plain P) (symbols : SymbolTable) : (e : Typed.Expr) →
    (∀ n ∈ e.nodes, n.KeepsCall P symbols) → P (e.lower symbols)
  | .integer _ _ _ _, _ | .float _ _ _, _ | .bool _ _ _, _ | .string _ _ _, _ => h.pure _
  | .load _ _ _, _ => h.symbol _ _ _
  | .cast _ _ inner, hcalls | .materialize _ _ inner, hcalls | .unary _ _ _ inner, hcalls => by
    have hinner := h.lower symbols inner fun n hn => hcalls n (List.mem_cons_of_mem _ hn)
    exact h.bind hinner fun op => h.bind (h.load _ op) fun _ => h.computed fun _ => ⟨rfl, rfl, rfl⟩
  | .invoke _ _ _ args, hcalls => by
    have hcall := hcalls _ (Typed.Expr.mem_nodes.mpr (.inl rfl))
    exact hcall (h.lowerAll symbols args fun n hn => hcalls n (List.mem_cons_of_mem _ hn))
  | .binary _ _ _ left right, hcalls => by
    unfold Typed.Expr.nodes at hcalls
    have hleft := h.lower symbols left fun n hn => hcalls n (by simp [hn])
    have hright := h.lower symbols right fun n hn => hcalls n (by simp [hn])
    unfold Typed.Expr.lower
    split
    · exact h.shortCircuit (h.value hleft) (h.value hright)
    · exact h.bind hleft fun _ => h.bind (h.load _ _) fun _ => h.bind hright fun _ =>
        h.bind (h.load _ _) fun _ => h.computed fun _ => ⟨rfl, rfl, rfl⟩
  | .addressOf _ _ inner, hcalls => by
    have hinner := h.lower symbols inner fun n hn => hcalls n (List.mem_cons_of_mem _ hn)
    exact h.bind hinner fun _ => h.bind (h.address _ _) fun _ => h.pure _
  | .dereference _ _ inner, hcalls => by
    have hinner := h.lower symbols inner fun n hn => hcalls n (List.mem_cons_of_mem _ hn)
    exact h.bind hinner fun _ => h.bind (h.load _ _) fun _ => h.pure _
  | .index _ _ target i, hcalls => by
    unfold Typed.Expr.nodes at hcalls
    have htarget := h.lower symbols target fun n hn => hcalls n (by simp [hn])
    have hi := h.lower symbols i fun n hn => hcalls n (by simp [hn])
    exact h.element (h.elements htarget) (h.value hi)
  | .field _ _ target _ place, hcalls => by
    have htarget := h.lower symbols target fun n hn => hcalls n (List.mem_cons_of_mem _ hn)
    exact h.field htarget place

theorem lowerAll (h : Plain P) (symbols : SymbolTable) : (es : List Typed.Expr) →
    (∀ n ∈ Typed.Expr.nodesAll es, n.KeepsCall P symbols) → P (Typed.Expr.lowerAll symbols es)
  | [], _ => by
    exact h.pure _
  | e :: es, hcalls => by
    have he := h.lower symbols e fun n hn => hcalls n (List.mem_append_left _ hn)
    have hes := h.lowerAll symbols es fun n hn => hcalls n (List.mem_append_right _ hn)
    exact h.bind he fun _ => h.bind (h.load _ _) fun _ => h.bind hes fun _ => h.pure _

end

end Lower.Plain

namespace Lower.Closed

/-- Calls are nothing special for a property that holds of all instructions. -/
theorem of_steps (pure : ∀ {α : Type} (a : α), P (Pure.pure a))
    (refuse : ∀ {α : Type} (span : Span) (problem : Problem),
      P (Lower.refuse span problem : Lower α))
    (bind : ∀ {α β : Type} {x : Lower α} {f : α → Lower β}, P x → (∀ a, P (f a)) → P (x >>= f))
    (define : ∀ {i : IR.Register → IR.Instruction}, (∀ r, (i r).dest? = some r) →
      (∀ r, (i r).isAlloca = false) → P (Lower.define i))
    (emit : ∀ {i : IR.Instruction}, i.dest? = none → P (Lower.emit i))
    (reserve : ∀ ty, P (Lower.reserve ty))
    (symbol : ∀ symbols id span, P (Lowering.symbol symbols id span))
    (shortCircuit : ∀ {isAnd : Bool} {left right : Lower IR.Value}, P left → P right →
      P (Lowering.shortCircuit isAnd left right)) : Closed P where
  pure := pure
  refuse := refuse
  bind := bind
  define := fun hi => define (fun r => (hi r).1) fun r => (hi r).2.1
  emit := fun hdest _ => emit hdest
  reserve := reserve
  symbol := symbol
  shortCircuit := shortCircuit
  call := by
    intro name ty args
    unfold Lowering.call
    split
    · exact bind (emit rfl) fun _ => pure _
    · exact bind (define (fun _ => rfl) fun _ => rfl) fun _ => pure _

variable (h : Closed P) (symbols : SymbolTable)
include h

theorem keepsCall (e : Typed.Expr) : e.KeepsCall P symbols := by
  cases e with
  | invoke _ _ _ _ =>
    intro hargs
    exact h.bind hargs fun _ => h.call _ _ _
  | _ => trivial

/-- The property holds of the code of every expression. -/
theorem lower (e : Typed.Expr) : P (e.lower symbols) :=
  h.toPlain.lower symbols e fun n _ => h.keepsCall symbols n

theorem lowerAll (es : List Typed.Expr) : P (Typed.Expr.lowerAll symbols es) :=
  h.toPlain.lowerAll symbols es fun n _ => h.keepsCall symbols n

theorem lowerValue (e : Typed.Expr) : P (e.lowerValue symbols) := h.value (h.lower symbols e)

theorem lowerAddress (e : Typed.Expr) : P (e.lowerAddress symbols) :=
  h.addressOf (h.lower symbols e)

theorem optionalValue (value : Option Typed.Expr) : P (Lowering.optionalValue symbols value) :=
  h.optional fun e _ => h.lower symbols e

end Lower.Closed

/-! ### Statements -/

/-- A property of steps that holds of each of them on its own, calls and variables apart. -/
structure Lower.Uniform (P : {α : Type} → Lower α → Prop) : Prop extends Lower.Sequential P where
  define : ∀ {i : IR.Register → IR.Instruction}, (∀ r, (i r).isCall = false) → P (Lower.define i)
  emit : ∀ {i : IR.Instruction}, i.isCall = false → P (Lower.emit i)
  reserve : ∀ ty, P (Lower.reserve ty)
  slotOf? : ∀ id, P (Lower.slotOf? id)
  newBlock : ∀ label, P (Lower.newBlock label)
  currentBlock : P Lower.currentBlock
  moveTo : ∀ id, P (Lower.moveTo id)
  isClosed : ∀ id, P (Lower.isClosed id)
  closeBlock : ∀ id t, P (Lower.closeBlock id t)

/-- The property holds of the expressions of a statement and of the variable that it declares. -/
def Typed.Stmt.Keeps (P : {α : Type} → Lower α → Prop) (symbols : SymbolTable) (s : Typed.Stmt) :
    Prop :=
  (∀ e ∈ s.operands, P (e.lower symbols)) ∧
    ∀ id value span, s = .binding id value span → P (Lowering.binding symbols id value)

namespace Lower.Uniform

section

variable (h : Uniform P)
include h

theorem close (t : IR.Terminator) : P (Lower.close t) :=
  h.bind h.currentBlock fun _ => h.closeBlock _ t

theorem fallFrom (id target : IR.BlockId) : P (Lower.fallFrom id target) := by
  refine h.bind (h.isClosed id) fun closed => ?_
  cases closed with
  | true => exact h.pure ()
  | false => exact h.closeBlock id _

theorem fallInto (target : IR.BlockId) : P (Lower.fallInto target) :=
  h.bind h.currentBlock fun id => h.fallFrom id target

theorem plain : Plain P where
  toSequential := h.toSequential
  define := fun hi => h.define fun r => (hi r).2.2
  emit := fun _ hi => h.emit hi
  reserve := h.reserve
  symbol := by
    intro symbols id span
    refine h.bind (h.slotOf? id) fun slot => ?_
    cases slot with
    | some _ => exact h.pure _
    | none =>
      simp only
      split
      · exact h.pure _
      · exact h.refuse _ _
  shortCircuit := fun hleft hright =>
    h.bind (h.reserve _) fun _ => h.bind hleft fun _ => h.bind (h.emit rfl) fun _ =>
      h.bind (h.newBlock _) fun _ => h.bind (h.newBlock _) fun _ => h.bind (h.close _) fun _ =>
      h.bind (h.moveTo _) fun _ => h.bind hright fun _ => h.bind (h.emit rfl) fun _ =>
      h.bind (h.fallInto _) fun _ => h.bind (h.moveTo _) fun _ =>
      h.bind (h.define fun _ => rfl) fun _ => h.pure _

variable {condition : Lower IR.Value}

theorem ifThen {thenBody : Lower Unit} (hcondition : P condition) (hthen : P thenBody) :
    P (Lowering.ifThen condition thenBody) :=
  h.bind hcondition fun _ => h.bind (h.newBlock _) fun _ => h.bind (h.newBlock _) fun _ =>
    h.bind (h.close _) fun _ => h.bind (h.moveTo _) fun _ => h.bind hthen fun _ =>
    h.bind (h.fallInto _) fun _ => h.moveTo _

theorem join (thenExit elseExit : IR.BlockId) : P (Lowering.join thenExit elseExit) := by
  refine h.bind (h.isClosed _) fun _ => h.bind (h.isClosed _) fun _ => ?_
  split
  · exact h.pure _
  · exact h.bind (h.newBlock _) fun _ => h.bind (h.fallFrom _ _) fun _ =>
      h.bind (h.fallFrom _ _) fun _ => h.moveTo _

theorem ifThenElse {thenBody elseBody : Lower Unit} (hcondition : P condition) (hthen : P thenBody)
    (helse : P elseBody) : P (Lowering.ifThenElse condition thenBody elseBody) :=
  h.bind hcondition fun _ => h.bind (h.newBlock _) fun _ => h.bind (h.newBlock _) fun _ =>
    h.bind (h.close _) fun _ => h.bind (h.moveTo _) fun _ => h.bind hthen fun _ =>
    h.bind h.currentBlock fun _ => h.bind (h.moveTo _) fun _ => h.bind helse fun _ =>
    h.bind h.currentBlock fun _ => h.join _ _

theorem loop {body : LoopTargets → Lower Unit} (hcondition : P condition)
    (hbody : ∀ targets, P (body targets)) : P (Lowering.loop condition body) :=
  h.bind (h.newBlock _) fun _ => h.bind (h.newBlock _) fun _ => h.bind (h.newBlock _) fun _ =>
    h.bind (h.fallInto _) fun _ => h.bind (h.moveTo _) fun _ => h.bind hcondition fun _ =>
    h.bind (h.close _) fun _ => h.bind (h.moveTo _) fun _ => h.bind (hbody _) fun _ =>
    h.bind (h.fallInto _) fun _ => h.moveTo _

theorem loopJump (loop : Option LoopTargets) (target : LoopTargets → IR.BlockId) (span : Span) :
    P (Lowering.loopJump loop target span) := by
  cases loop with
  | none => exact h.refuse _ _
  | some _ => exact h.close _

theorem lowerBlock_cons {symbols : SymbolTable} {loop : Option LoopTargets} {stmt : Typed.Stmt}
    {rest : List Typed.Stmt} (hstmt : P (stmt.lower symbols loop))
    (hrest : P (Typed.Stmt.lowerBlock symbols loop rest)) :
    P (Typed.Stmt.lowerBlock symbols loop (stmt :: rest)) := by
  refine h.bind h.currentBlock fun _ => h.bind (h.isClosed _) fun closed => ?_
  cases closed with
  | true => exact h.pure _
  | false => exact h.bind hstmt fun _ => hrest

end

end Lower.Uniform

namespace Typed.Stmt

open Lower (Uniform)

mutual

/-- The property holds of the code of a statement if it does of the parts of it. -/
theorem keeps_lower (h : Uniform P) {symbols : SymbolTable} (loop : Option LoopTargets) :
    (s : Stmt) → (∀ n ∈ s.nodes, n.Keeps P symbols) → P (s.lower symbols loop)
  | .block stmts _, hparts => by
    unfold lower
    exact keeps_lowerBlock h loop stmts fun n hn => hparts n (List.mem_cons_of_mem _ hn)
  | .binding id value span, hparts => (hparts _ (mem_nodes.mpr (Or.inl rfl))).2 id value span rfl
  | .expression value, hparts => by
    have hvalue := (hparts _ (mem_nodes.mpr (Or.inl rfl))).1 value (by simp [operands])
    exact h.bind (h.plain.value hvalue) fun _ => h.pure _
  | .ret value _, hparts => by
    have hvalue := (hparts _ (mem_nodes.mpr (Or.inl rfl))).1
    exact h.bind (h.plain.optional fun e he => hvalue e (Option.mem_toList.mpr he)) fun _ =>
      h.close _
  | .assign target value _, hparts => by
    have hsides := (hparts _ (mem_nodes.mpr (Or.inl rfl))).1
    exact h.bind (h.plain.addressOf (hsides target (by simp [operands]))) fun _ =>
      h.bind (h.plain.value (hsides value (by simp [operands]))) fun _ => h.emit rfl
  | .conditional condition thenBody none _, hparts => by
    have hcondition := (hparts _ (mem_nodes.mpr (Or.inl rfl))).1 condition (by simp [operands])
    exact h.ifThen (h.plain.value hcondition)
      (keeps_lower h loop thenBody fun n hn => hparts n (List.mem_cons_of_mem _ hn))
  | .conditional condition thenBody (some elseBody) _, hparts => by
    have hcondition := (hparts _ (mem_nodes.mpr (Or.inl rfl))).1 condition (by simp [operands])
    unfold nodes at hparts
    exact h.ifThenElse (h.plain.value hcondition)
      (keeps_lower h loop thenBody fun n hn => hparts n (by simp [hn]))
      (keeps_lower h loop elseBody fun n hn => hparts n (by simp [hn]))
  | .whileLoop condition body none _, hparts => by
    have hcondition := (hparts _ (mem_nodes.mpr (Or.inl rfl))).1 condition (by simp [operands])
    exact h.loop (h.plain.value hcondition) fun targets =>
      keeps_lower h (some targets) body fun n hn => hparts n (List.mem_cons_of_mem _ hn)
  | .whileLoop _ _ (some _) _, _ | .yield _ _, _ => h.refuse _ _
  | .breakLoop _, _ | .continueLoop _, _ => h.loopJump _ _ _
  | .deadCode _ _, _ => h.pure _

theorem keeps_lowerBlock (h : Uniform P) {symbols : SymbolTable} (loop : Option LoopTargets) :
    (stmts : List Stmt) → (∀ n ∈ nodesAll stmts, n.Keeps P symbols) →
      P (lowerBlock symbols loop stmts)
  | [], _ => h.pure _
  | first :: rest, hparts =>
    h.lowerBlock_cons
      (keeps_lower h loop first fun n hn => hparts n (List.mem_append_left _ hn))
      (keeps_lowerBlock h loop rest fun n hn => hparts n (List.mem_append_right _ hn))

end

end Typed.Stmt

theorem Lower.Uniform.body (h : Uniform P) {symbols : SymbolTable} (returnsVoid : Bool)
    {b : Typed.Body} (hstmts : ∀ n ∈ b.stmts, n.Keeps P symbols)
    (hvalue : ∀ e, b = .expression e → P (e.lower symbols)) :
    P (Lowering.body symbols returnsVoid b) := by
  cases b with
  | empty => exact h.pure _
  | block stmts _ => exact Typed.Stmt.keeps_lowerBlock h none stmts hstmts
  | expression e => exact h.bind (h.plain.value (hvalue e rfl)) fun _ => h.close _

end Laye
