import Laye.Proofs.Lowering.Blocks
import Laye.Proofs.Passes.Step

/-!
# The pass over typed trees

Lowering writes the blocks of a function in a `Draft`, which also has the log. It reports a fault
where it meets one, and then it stops. Its other steps are taken over as they are, but would stop
without a word (`Draft.quiet`).

Lowering never changes a block that has its terminator, apart from stack slots in the entry block.
The finished blocks do not show this: a terminator that replaced another one looks like any other.
So this module states it about the run. A `Writer` holds the two steps that change a block, adding
an instruction and setting a terminator, and `Writer.program` is lowering over any such steps.
`Writer.guarded` traps as soon as a closed block is to be changed.

`Writer.program_runs` says that neither is ever the case: any writer that works as usual on open
blocks gives what lowering gives, whatever it does on closed ones, and exactly one fault is reported
if it gives nothing. -/

namespace Laye

open Builder (admits_none isOpen_fork withBlock_length)
open Step (report stop Runs)

/-- A function under construction, and the diagnostics. -/
structure Draft extends Log where
  builder : Builder
deriving Inhabited

namespace Draft

/-- The draft with one more finding. -/
def report (finding : Finding) (d : Draft) : Draft := { d with toLog := d.toLog.report finding }

instance : Logs Draft := ⟨toLog, report⟩

/-- A step that reports nothing, not even if it stops. -/
def quiet {α : Type} (x : Lower α) : Step Draft α := fun d =>
  match x d.builder with
  | .ok (a, b) => .ok (some a, { d with builder := b })
  | .error _ => .ok (none, d)

end Draft

open Draft (quiet)

/-- The steps of lowering that change a block. Stack slots are not among them: they go to the entry
block at any time. -/
structure Writer where
  /-- Adds an instruction to the current block. -/
  emit : IR.Instruction → Step Draft Unit
  /-- Gives a block its terminator. -/
  closeBlock : IR.BlockId → IR.Terminator → Step Draft Unit

/-- Whether a block is there and has no terminator. -/
def Builder.isOpenAt (b : Builder) (id : IR.BlockId) : Bool :=
  (b.blocks[id]?).any fun block => !block.isClosed

theorem Builder.OpenAt.isOpenAt {b : Builder} {id : IR.BlockId} (h : b.OpenAt id) :
    b.isOpenAt id = true := by
  obtain ⟨_, hblock, hopen⟩ := h
  simp [Builder.isOpenAt, hblock, IR.Block.isClosed, hopen]

namespace Writer

/-- The writer that lowering uses. -/
def plain : Writer := ⟨fun i => quiet (Lower.emit i), fun id t => quiet (Lower.closeBlock id t)⟩

/-- The writer that traps instead of changing a block which is not open. -/
def guarded (trap : Trap) : Writer where
  emit i := fun d =>
    if d.builder.isOpenAt d.builder.current then quiet (Lower.emit i) d else .error trap
  closeBlock id t := fun d =>
    if d.builder.isOpenAt id then quiet (Lower.closeBlock id t) d else .error trap

/-! ### Lowering over a writer -/

variable (w : Writer)

def define (i : IR.Register → IR.Instruction) : Step Draft IR.Value := do
  let dest ← quiet Lower.freshRegister
  w.emit (i dest)
  pure (.register dest)

def storeSlot (slot : IR.Register) (value : IR.Value) : Step Draft Unit :=
  w.emit (.store (.register slot) value)

def close (t : IR.Terminator) : Step Draft Unit := do
  w.closeBlock (← quiet Lower.currentBlock) t

def fallFrom (id target : IR.BlockId) : Step Draft Unit := do
  if ← quiet (Lower.isClosed id) then pure () else w.closeBlock id (.jump target)

def fallInto (target : IR.BlockId) : Step Draft Unit := do
  w.fallFrom (← quiet Lower.currentBlock) target

def load (ty : Ty) : Operand → Step Draft IR.Value
  | .value v => pure v
  | .place ptr => w.define fun dest => .load dest ptr ty.shape

def address (ty : Ty) : Operand → Step Draft IR.Value
  | .place ptr => pure ptr
  | .value v => do
    let slot ← quiet (Lower.reserve ty.shape)
    w.storeSlot slot v
    pure (.register slot)

def computed (i : IR.Register → IR.Instruction) : Step Draft Operand := do
  let value ← w.define i
  pure (.value value)

def call (name : String) (ty : Ty) (args : List IR.Value) : Step Draft Operand :=
  if ty.isVoid then do
    w.emit (.call none name args)
    pure (.value .unit)
  else w.computed fun dest => .call (some dest) name args

def shortCircuit (isAnd : Bool) (left right : Step Draft IR.Value) : Step Draft Operand := do
  let slot ← quiet (Lower.reserve .bool)
  let lhs ← left
  w.storeSlot slot lhs
  let rhsBlock ← quiet (Lower.newBlock (Lowering.circuitLabels isAnd).1)
  let endBlock ← quiet (Lower.newBlock (Lowering.circuitLabels isAnd).2)
  w.close (if isAnd then .branch lhs rhsBlock endBlock else .branch lhs endBlock rhsBlock)
  quiet (Lower.moveTo rhsBlock)
  let rhs ← right
  w.storeSlot slot rhs
  w.fallInto endBlock
  quiet (Lower.moveTo endBlock)
  w.computed fun dest => .load dest (.register slot) .bool

def elements (target : Typed.Expr) (lowered : Step Draft Operand) : Step Draft IR.Value :=
  match target.ty with
  | .array _ _ _ => do w.address target.ty (← lowered)
  | .pointer _ _ | .buffer _ _ | .rawptr => do w.load target.ty (← lowered)
  | .slice _ _ | .string => do
    let value ← w.load target.ty (← lowered)
    w.define fun dest => .sliceData dest value
  | ty => do
    report ⟨target.span, .notIndexable ty⟩
    stop

def element (ty : Ty) (base index : Step Draft IR.Value) : Step Draft Operand := do
  let base ← base
  let index ← index
  let address ← w.define fun dest => .element dest base index ty.shape
  pure (.place address)

def field (target : Typed.Expr) (lowered : Step Draft Operand) (place : Nat) :
    Step Draft Operand :=
  match target.ty with
  | .struct name _ _ => do
    let base ← w.address target.ty (← lowered)
    let address ← w.define fun dest => .field dest base name place
    pure (.place address)
  | ty => do
    report ⟨target.span, .noFields ty⟩
    stop

/-- A symbol as a value: a variable by its slot, a function by its name. -/
def symbol (symbols : SymbolTable) (id : SymbolId) (span : Span) : Step Draft Operand := do
  match ← quiet (Lower.slotOf? id) with
  | some slot => pure (.place (.register slot))
  | none =>
    if (symbols.symbolAt id).kind = .function then
      pure (.value (.global (symbols.symbolAt id).name))
    else do
      report ⟨span, .noStorage (symbols.symbolAt id).name⟩
      stop

mutual

def expr (symbols : SymbolTable) : Typed.Expr → Step Draft Operand
  | .integer _ _ magnitude negative =>
    pure (.value (.constant (.int (Lowering.signed magnitude negative))))
  | .float _ _ value => pure (.value (.constant (.float value)))
  | .bool _ _ value => pure (.value (.constant (.bool value)))
  | .string _ _ value => pure (.value (.constant (.string value)))
  | .load _ span id => symbol symbols id span
  | .cast ty _ inner => do
    let value ← w.load inner.ty (← expr symbols inner)
    w.computed fun dest => .cast dest value inner.ty.shape ty.shape
  | .materialize ty _ inner => do
    let value ← w.load inner.ty (← expr symbols inner)
    w.computed fun dest => .materialize dest value ty.shape
  | .invoke ty _ function args => do
    let args ← exprs symbols args
    w.call (symbols.symbolAt function).name ty args
  | .unary _ _ op operand => do
    let value ← w.load operand.ty (← expr symbols operand)
    w.computed fun dest => .unary dest op.operation value
  | .binary _ _ op left right =>
    if op.isLogical then
      w.shortCircuit (op == .logicalAnd) (do w.load left.ty (← expr symbols left))
        (do w.load right.ty (← expr symbols right))
    else do
      let lhs ← w.load left.ty (← expr symbols left)
      let rhs ← w.load right.ty (← expr symbols right)
      w.computed fun dest => .binary dest op.operation lhs rhs left.ty.shape
  | .addressOf _ _ inner => do
    let address ← w.address inner.ty (← expr symbols inner)
    pure (.value address)
  | .dereference _ _ inner => do
    let address ← w.load inner.ty (← expr symbols inner)
    pure (.place address)
  | .index ty _ target i =>
    w.element ty (w.elements target (expr symbols target)) (do w.load i.ty (← expr symbols i))
  | .field _ _ target _ place => w.field target (expr symbols target) place

def exprs (symbols : SymbolTable) : List Typed.Expr → Step Draft (List IR.Value)
  | [] => pure []
  | e :: es => do
    let value ← w.load e.ty (← expr symbols e)
    let values ← exprs symbols es
    pure (value :: values)

end

def value (symbols : SymbolTable) (e : Typed.Expr) : Step Draft IR.Value := do
  w.load e.ty (← w.expr symbols e)

def addressOf (symbols : SymbolTable) (e : Typed.Expr) : Step Draft IR.Value := do
  w.address e.ty (← w.expr symbols e)

def ifThen (condition : Step Draft IR.Value) (thenBody : Step Draft Unit) : Step Draft Unit := do
  let condition ← condition
  let thenBlock ← quiet (Lower.newBlock "if.then")
  let endBlock ← quiet (Lower.newBlock "if.end")
  w.close (.branch condition thenBlock endBlock)
  quiet (Lower.moveTo thenBlock)
  thenBody
  w.fallInto endBlock
  quiet (Lower.moveTo endBlock)

def join (thenExit elseExit : IR.BlockId) : Step Draft Unit := do
  if (← quiet (Lower.isClosed thenExit)) && (← quiet (Lower.isClosed elseExit)) then pure ()
  else do
    let endBlock ← quiet (Lower.newBlock "if.end")
    w.fallFrom thenExit endBlock
    w.fallFrom elseExit endBlock
    quiet (Lower.moveTo endBlock)

def ifThenElse (condition : Step Draft IR.Value) (thenBody elseBody : Step Draft Unit) :
    Step Draft Unit := do
  let condition ← condition
  let thenBlock ← quiet (Lower.newBlock "if.then")
  let elseBlock ← quiet (Lower.newBlock "if.else")
  w.close (.branch condition thenBlock elseBlock)
  quiet (Lower.moveTo thenBlock)
  thenBody
  let thenExit ← quiet Lower.currentBlock
  quiet (Lower.moveTo elseBlock)
  elseBody
  let elseExit ← quiet Lower.currentBlock
  w.join thenExit elseExit

def loop (condition : Step Draft IR.Value) (body : LoopTargets → Step Draft Unit) :
    Step Draft Unit := do
  let conditionBlock ← quiet (Lower.newBlock "while.cond")
  let bodyBlock ← quiet (Lower.newBlock "while.body")
  let endBlock ← quiet (Lower.newBlock "while.end")
  w.fallInto conditionBlock
  quiet (Lower.moveTo conditionBlock)
  let condition ← condition
  w.close (.branch condition bodyBlock endBlock)
  quiet (Lower.moveTo bodyBlock)
  body ⟨conditionBlock, endBlock⟩
  w.fallInto conditionBlock
  quiet (Lower.moveTo endBlock)

def loopJump (loop : Option LoopTargets) (target : LoopTargets → IR.BlockId) (span : Span) :
    Step Draft Unit :=
  match loop with
  | some targets => w.close (.jump (target targets))
  | none => do
    report ⟨span, .strayLoopControl⟩
    stop

def optionalValue (symbols : SymbolTable) : Option Typed.Expr → Step Draft (Option IR.Value)
  | none => pure none
  | some e => do
    let value ← w.value symbols e
    pure (some value)

def binding (symbols : SymbolTable) (symbol : SymbolId) (value : Option Typed.Expr) :
    Step Draft Unit := do
  let slot ← quiet (Lower.reserve (symbols.symbolAt symbol).ty.shape)
  match ← w.optionalValue symbols value with
  | some value => w.storeSlot slot value
  | none => pure ()
  quiet (Lower.bindSlot symbol slot)

mutual

def stmt (symbols : SymbolTable) (loop : Option LoopTargets) : Typed.Stmt → Step Draft Unit
  | .block stmts _ => block symbols loop stmts
  | .binding symbol value _ => w.binding symbols symbol value
  | .expression value => do
    let _ ← w.value symbols value
    pure ()
  | .ret value _ => do
    let value ← w.optionalValue symbols value
    w.close (.ret value)
  | .assign target value _ => do
    let address ← w.addressOf symbols target
    let value ← w.value symbols value
    w.emit (.store address value)
  | .conditional condition thenBody none _ =>
    w.ifThen (w.value symbols condition) (stmt symbols loop thenBody)
  | .conditional condition thenBody (some elseBody) _ =>
    w.ifThenElse (w.value symbols condition) (stmt symbols loop thenBody)
      (stmt symbols loop elseBody)
  | .whileLoop condition body none _ =>
    w.loop (w.value symbols condition) fun targets => stmt symbols (some targets) body
  | .whileLoop _ _ (some _) span => do
    report ⟨span, .whileElse⟩
    stop
  | .breakLoop span => w.loopJump loop LoopTargets.breakTarget span
  | .continueLoop span => w.loopJump loop LoopTargets.continueTarget span
  | .yield _ span => do
    report ⟨span, .yieldUnsupported⟩
    stop
  | .deadCode _ _ => pure ()

def block (symbols : SymbolTable) (loop : Option LoopTargets) : List Typed.Stmt → Step Draft Unit
  | [] => pure ()
  | first :: rest => do
    if ← quiet (Lower.isClosed (← quiet Lower.currentBlock)) then pure ()
    else do
      stmt symbols loop first
      block symbols loop rest

end

def params (symbols : SymbolTable) : Nat → List SymbolId → Step Draft Unit
  | _, [] => pure ()
  | next, symbol :: rest => do
    let slot ← quiet (Lower.reserve (symbols.symbolAt symbol).ty.shape)
    w.storeSlot slot (.param next)
    quiet (Lower.bindSlot symbol slot)
    params symbols (next + 1) rest

def body (symbols : SymbolTable) (returnsVoid : Bool) : Typed.Body → Step Draft Unit
  | .empty => pure ()
  | .block stmts _ => w.block symbols none stmts
  | .expression value => do
    let value ← w.value symbols value
    w.close (.ret (if returnsVoid then none else some value))

def code (symbols : SymbolTable) (returnsVoid : Bool) (f : Typed.Function) : Step Draft Unit := do
  w.params symbols 0 f.params
  w.body symbols returnsVoid f.body

/-- The blocks of a function with an end to each of them, if control cannot fall off its end. -/
def complete (returnsVoid : Bool) (f : Typed.Function) (blocks : List IR.Block) :
    Step Log (List IR.Block) :=
  if returnsVoid then pure (blocks.map Lowering.closeOpen)
  else if blocks.all IR.Block.isClosed then pure blocks
  else do
    report ⟨f.nameSpan, .missingReturn f.name⟩
    stop

/-- The blocks that the code of a function is in. -/
def written (symbols : SymbolTable) (returnsVoid : Bool) (f : Typed.Function) :
    Step Draft (List IR.Block) := do
  w.code symbols returnsVoid f
  fun d => .ok (some d.builder.blocks, d)

/-- The blocks of a function, which is written in a draft of its own. -/
def blocks (symbols : SymbolTable) (returnsVoid : Bool) (f : Typed.Function) :
    Step Log (List IR.Block) := do
  let blocks ← Step.nested (⟨·, .start⟩) Draft.toLog (w.written symbols returnsVoid f)
  complete returnsVoid f blocks

def addFunction (symbols : SymbolTable) (m : IR.Module) (f : Typed.Function) :
    Step Log IR.Module :=
  match (symbols.symbolAt f.symbol).signature? with
  | none => do
    report ⟨f.nameSpan, .notAFunction f.name⟩
    stop
  | some signature =>
    let params := namedShapes signature.params
    let ret := signature.returnType.shape
    match f.body with
    | .empty =>
      let external : IR.External :=
        ⟨f.name, f.library, params, ret, signature.convention, signature.varArgs⟩
      pure { m with externals := m.externals ++ [external] }
    | _ => do
      let blocks ← w.blocks symbols signature.returnType.isVoid f
      let function : IR.Function :=
        ⟨f.name, params, ret, signature.convention, blocks, Builder.entry⟩
      pure { m with functions := m.functions ++ [function] }

def addDecl (symbols : SymbolTable) (m : IR.Module) : Typed.Decl → Step Log IR.Module
  | .struct symbol _ =>
    match (symbols.symbolAt symbol).ty with
    | .struct name _ fields =>
      pure { m with structs := m.structs ++ [⟨name, namedShapes fields⟩] }
    | _ => pure m
  | .enum _ _ => pure m
  | .function f => w.addFunction symbols m f

/-- Lowers a program, with the steps of the writer in place of those that change a block. -/
def program (p : Typed.Program) (name : String) : Step Log IR.Module :=
  p.decls.foldlM (w.addDecl p.symbols) (.empty name)

end Writer

/-! ### Steps that agree -/

namespace Draft

variable {α β : Type}

/-- How a step ends in a draft, given what lowering comes to: with its result and its code and
nothing reported, or with its fault reported, once, and no result. -/
inductive Ends (log : Log) :
    Except Fault (α × Builder) → Except Trap (Option α × Draft) → Prop where
  | passed (a : α) (b : Builder) : Ends log (.ok (a, b)) (.ok (some a, ⟨log, b⟩))
  | stopped {fault : Fault} {d : Draft} (h : d.toLog = log.report (.fault fault)) :
    Ends log (.error fault) (.ok (none, d))

/-- From the builder, whatever was reported before, the step ends as lowering does. -/
def Mirrors (x : Step Draft α) (y : Lower α) (b : Builder) : Prop :=
  ∀ log, Ends log (y b) (x ⟨log, b⟩)

namespace Mirrors

variable {x : Step Draft α} {y : Lower α} {f : α → Step Draft β} {g : α → Lower β} {b b' : Builder}
  {a : α}

theorem pure (a : α) (b : Builder) : Mirrors (Pure.pure a) (Pure.pure a) b := fun _ => .passed a b

theorem refuse (fault : Fault) (b : Builder) :
    Mirrors (α := α) (Step.report fault >>= fun _ => stop) (fun _ => .error fault) b :=
  fun _ => .stopped rfl

theorem bind (hx : Mirrors x y b) (hf : ∀ a b', y b = .ok (a, b') → Mirrors (f a) (g a) b') :
    Mirrors (x >>= f) (y >>= g) b := by
  intro log
  show Ends log (Except.bind (y b) fun r => g r.1 r.2) (Step.resume f (x ⟨log, b⟩))
  have hend := hx log
  revert hend
  generalize x ⟨log, b⟩ = run, hy : y b = result
  intro hend
  cases hend with
  | passed a b' => exact hf a b' hy log
  | stopped h => exact .stopped h

/-- A step that reports nothing does what it does in lowering, which comes to a result. -/
theorem quiet (h : y b = .ok (a, b')) : Mirrors (quiet y) y b := by
  intro log
  simp only [Draft.quiet, h]
  exact .passed a b'

/-- A quiet step that succeeds is followed from where it ends. -/
theorem quiet_bind (h : y b = .ok (a, b')) (hf : Mirrors (f a) (g a) b') :
    Mirrors (Draft.quiet y >>= f) (y >>= g) b := by
  refine (quiet h).bind fun a1 b1 h1 => ?_
  rw [h, Except.ok.injEq, Prod.mk.injEq] at h1
  obtain ⟨rfl, rfl⟩ := h1
  exact hf

end Mirrors

/-- From a builder whose current block is open, the step ends as lowering does, which advances. -/
structure Agrees (x : Step Draft α) (y : Lower α) : Prop where
  advances : Lower.Advances y
  mirrors : ∀ ⦃b : Builder⦄, b.IsOpen → Mirrors x y b

/-- The step ends as lowering does inside a loop, from a builder whose current block is open. -/
def AgreesIn (loop : Option LoopTargets) (x : Step Draft α) (y : Lower α) : Prop :=
  ∀ ⦃b : Builder⦄, b.IsOpen → b.Admits loop → Mirrors x y b

namespace Agrees

theorem pure (a : α) : Agrees (Pure.pure a) (Pure.pure a) := ⟨.pure a, fun b _ => .pure a b⟩

theorem refuse (span : Span) (problem : Problem) :
    Agrees (α := α) (Step.report ⟨span, problem⟩ >>= fun _ => stop) (Lower.refuse span problem) :=
  ⟨.refuse span problem, fun b _ => .refuse ⟨span, problem⟩ b⟩

theorem reserve (ty : IR.Ty) : Agrees (Draft.quiet (Lower.reserve ty)) (Lower.reserve ty) :=
  ⟨.reserve ty, fun b _ => .quiet (Lower.reserve_run ty b)⟩

theorem symbol (symbols : SymbolTable) (id : SymbolId) (span : Span) :
    Agrees (Writer.symbol symbols id span) (Lowering.symbol symbols id span) := by
  refine ⟨.symbol symbols id span, fun b _ => .quiet_bind (Lower.slotOf?_run id b) ?_⟩
  cases b.slotOf? id with
  | some _ => exact .pure _ b
  | none =>
    show Mirrors (if _ then _ else _) (if _ then _ else _) b
    split
    · exact .pure _ b
    · exact .refuse _ b

variable {x : Step Draft α} {y : Lower α} {f : α → Step Draft β} {g : α → Lower β}

theorem bind (hx : Agrees x y) (hf : ∀ a, Agrees (f a) (g a)) : Agrees (x >>= f) (y >>= g) where
  advances := hx.advances.bind fun a => (hf a).advances
  mirrors _ hopen := (hx.mirrors hopen).bind fun a _ h => (hf a).mirrors (hx.advances hopen h).2

theorem bindIn {loop : Option LoopTargets} (hx : Agrees x y) (hf : ∀ a, AgreesIn loop (f a) (g a)) :
    AgreesIn loop (x >>= f) (y >>= g) := by
  intro b hopen hloop
  refine (hx.mirrors hopen).bind fun a b' h => ?_
  obtain ⟨hext, hopen'⟩ := hx.advances hopen h
  exact hf a hopen' (hloop.mono hext.length_le)

theorem agreesIn (h : Agrees x y) (loop : Option LoopTargets) : AgreesIn loop x y :=
  fun _ hopen _ => h.mirrors hopen

end Agrees

end Draft

namespace Writer

open Lower
open Draft (Mirrors Agrees AgreesIn)

/-- The writer works as usual on open blocks. -/
structure OnOpen (w : Writer) : Prop where
  emit : ∀ i ⦃b : Builder⦄, b.IsOpen → Mirrors (w.emit i) (Lower.emit i) b
  closeBlock : ∀ ⦃b : Builder⦄ ⦃id⦄, b.OpenAt id →
    ∀ t, Mirrors (w.closeBlock id t) (Lower.closeBlock id t) b

/-- The writer of lowering works as usual on open blocks. -/
theorem onOpen_plain : plain.OnOpen := ⟨fun _ _ _ => .quiet rfl, fun _ _ _ _ => .quiet rfl⟩

/-- So does the one that traps on closed blocks. -/
theorem onOpen_guarded (trap : Trap) : (guarded trap).OnOpen where
  emit i b hopen log := by
    rw [show (guarded trap).emit i ⟨log, b⟩ = _ from if_pos (Builder.OpenAt.isOpenAt hopen)]
    exact .passed _ _
  closeBlock b id hopen t log := by
    rw [show (guarded trap).closeBlock id t ⟨log, b⟩ = _ from if_pos hopen.isOpenAt]
    exact .passed _ _

theorem runs_complete (returnsVoid : Bool) (f : Typed.Function) (blocks : List IR.Block) :
    Runs (complete returnsVoid f blocks) (Lowering.complete returnsVoid f blocks) := by
  unfold complete Lowering.complete
  split
  · exact .pure _
  · split
    · exact .pure _
    · exact .refused _

namespace OnOpen

variable {w : Writer}

section

variable (hw : w.OnOpen)
include hw

/-! ### Single steps -/

variable {i : IR.Register → IR.Instruction} {b : Builder} {target : Typed.Expr}
  {lowered : Step Draft Operand} {lowered' : Lower Operand} {outer : Option LoopTargets}
  {condition : Step Draft IR.Value} {condition' : Lower IR.Value}

theorem define (hdest : ∀ r, (i r).dest? = some r) (hcode : ∀ r, (i r).isAlloca = false) :
    Agrees (w.define i) (Lower.define i) := by
  refine ⟨.define hdest hcode, fun b hopen => ?_⟩
  have hfresh : Builder.IsOpen { b with nextRegister := b.nextRegister + 1 } := hopen
  refine .quiet_bind rfl ?_
  exact (hw.emit _ hfresh).bind fun _ b' _ => .pure _ b'

theorem emits {i : IR.Instruction} (hdest : i.dest? = none) :
    Agrees (w.emit i) (Lower.emit i) :=
  ⟨.emit hdest, hw.emit i⟩

theorem storeSlot (slot : IR.Register) (value : IR.Value) :
    Agrees (w.storeSlot slot value) (Lower.storeSlot slot value) :=
  hw.emits rfl

theorem close (hopen : b.IsOpen) (t : IR.Terminator) : Mirrors (w.close t) (Lower.close t) b :=
  .quiet_bind (currentBlock_run b) (hw.closeBlock hopen t)

theorem fallFrom {id : IR.BlockId} (hlt : id < b.blocks.length) (target : IR.BlockId) :
    Mirrors (w.fallFrom id target) (Lower.fallFrom id target) b := by
  refine .quiet_bind (isClosed_run id b) ?_
  cases hclosed : b.isClosed id with
  | true => exact .pure () b
  | false => exact hw.closeBlock (Builder.openAt_of_not_closed hlt hclosed) _

theorem fallInto (hlt : b.current < b.blocks.length) (target : IR.BlockId) :
    Mirrors (w.fallInto target) (Lower.fallInto target) b :=
  .quiet_bind (currentBlock_run b) (hw.fallFrom hlt target)

/-! ### Expressions -/

theorem load (ty : Ty) (op : Operand) : Agrees (w.load ty op) (op.load ty) := by
  cases op with
  | value v => exact .pure _
  | place _ => exact hw.define (fun _ => rfl) fun _ => rfl

theorem address (ty : Ty) (op : Operand) : Agrees (w.address ty op) (op.address ty) := by
  cases op with
  | place _ => exact .pure _
  | value v =>
    exact (Agrees.reserve _).bind fun slot => (hw.storeSlot slot v).bind fun _ => .pure _

theorem computed (hdest : ∀ r, (i r).dest? = some r) (hcode : ∀ r, (i r).isAlloca = false) :
    Agrees (w.computed i) (Lowering.computed i) :=
  (hw.define hdest hcode).bind fun _ => .pure _

theorem call (name : String) (ty : Ty) (args : List IR.Value) :
    Agrees (w.call name ty args) (Lowering.call name ty args) := by
  unfold Writer.call Lowering.call
  split
  · exact (hw.emits rfl).bind fun _ => .pure _
  · exact hw.computed (fun _ => rfl) fun _ => rfl

theorem fork {α : Type} (hopen : b.IsOpen) (labels : String × String)
    {t : IR.BlockId → IR.BlockId → IR.Terminator} {f : IR.BlockId → IR.BlockId → Step Draft α}
    {g : IR.BlockId → IR.BlockId → Lower α}
    (h : Mirrors (f b.blocks.length (b.blocks.length + 1)) (g b.blocks.length (b.blocks.length + 1))
      (b.fork labels (t b.blocks.length (b.blocks.length + 1)))) :
    Mirrors
      (do
        let first ← quiet (newBlock labels.1)
        let second ← quiet (newBlock labels.2)
        w.close (t first second)
        quiet (moveTo first)
        f first second)
      (do
        let first ← newBlock labels.1
        let second ← newBlock labels.2
        Lower.close (t first second)
        moveTo first
        g first second) b := by
  refine .quiet_bind (newBlock_run _ _) (.quiet_bind (newBlock_run _ _) ?_)
  rw [withBlock_length]
  have hblocks := (Builder.OpenAt.withBlock hopen labels.1).withBlock labels.2
  refine (hw.close hblocks _).bind fun _ b' hclose => ?_
  obtain ⟨-, rfl⟩ := hclose
  exact .quiet_bind (moveTo_run _ _) h

theorem shortCircuit {isAnd : Bool} {left right : Step Draft IR.Value}
    {left' right' : Lower IR.Value}
    (hleft : Agrees left left') (hright : Agrees right right') :
    Agrees (w.shortCircuit isAnd left right) (Lowering.shortCircuit isAnd left' right') := by
  refine ⟨.shortCircuit hleft.advances hright.advances, fun b hopen => ?_⟩
  suffices hraw : AgreesIn none (w.shortCircuit isAnd left right)
      (Lowering.shortCircuit isAnd left' right') from hraw hopen (admits_none b)
  refine (Agrees.reserve _).bindIn fun slot => hleft.bindIn fun lhs =>
    (hw.storeSlot slot lhs).bindIn fun _ => ?_
  intro b hopen _
  refine hw.fork hopen (Lowering.circuitLabels isAnd) ?_
  have hfork : ∀ t, (b.fork (Lowering.circuitLabels isAnd) t).IsOpen :=
    isOpen_fork hopen (Lowering.circuitLabels isAnd)
  refine (hright.mirrors (hfork _)).bind fun rhs b1 hrun => ?_
  obtain ⟨hext, hopen1⟩ := hright.advances (hfork _) hrun
  refine ((hw.storeSlot slot rhs).mirrors hopen1).bind fun _ b2 hstore => ?_
  obtain ⟨-, rfl⟩ := hstore
  refine (hw.fallInto (Builder.OpenAt.withInstruction hopen1 _).lt _).bind
    fun _ b3 hfall => ?_
  rw [fallInto_run, Except.ok.injEq, Prod.mk.injEq] at hfall
  obtain ⟨-, rfl⟩ := hfall
  refine .quiet_bind (moveTo_run _ _) ((hw.computed (fun _ => rfl) fun _ => rfl).mirrors ?_)
  -- The block after the operator is open when its right operand is done.
  have hend := hext.openAt (Builder.openAt_fork hopen _ _) (Nat.succ_ne_self _)
  exact Builder.isOpen_resumeAt (hend.withInstruction _) hext.current_ne_fork

theorem elements (h : Agrees lowered lowered') :
    Agrees (w.elements target lowered) (Lowering.elements target lowered') := by
  unfold Writer.elements Lowering.elements
  cases target.ty with
  | array => exact h.bind fun op => hw.address _ op
  | pointer | buffer | rawptr => exact h.bind fun op => hw.load _ op
  | slice | string =>
    refine h.bind fun op => (hw.load _ op).bind fun value => ?_
    exact hw.define (fun _ => rfl) fun _ => rfl
  | _ => exact .refuse _ _

theorem element {ty : Ty} {base index : Step Draft IR.Value} {base' index' : Lower IR.Value}
    (hbase : Agrees base base') (hindex : Agrees index index') :
    Agrees (w.element ty base index) (Lowering.element ty base' index') :=
  hbase.bind fun _ => hindex.bind fun _ =>
    (hw.define (fun _ => rfl) fun _ => rfl).bind fun _ => .pure _

theorem field (h : Agrees lowered lowered') (place : Nat) :
    Agrees (w.field target lowered place) (Lowering.field target lowered' place) := by
  unfold Writer.field Lowering.field
  cases target.ty with
  | struct =>
    exact h.bind fun op => (hw.address _ op).bind fun _ =>
      (hw.define (fun _ => rfl) fun _ => rfl).bind fun _ => .pure _
  | _ => exact .refuse _ _

mutual

theorem expr (symbols : SymbolTable) : (e : Typed.Expr) →
    Agrees (w.expr symbols e) (e.lower symbols)
  | .integer _ _ _ _ | .float _ _ _ | .bool _ _ _ | .string _ _ _ => .pure _
  | .load _ span id => .symbol symbols id span
  | .cast _ _ inner | .materialize _ _ inner | .unary _ _ _ inner =>
    (expr symbols inner).bind fun op => (hw.load _ op).bind fun _ =>
      hw.computed (fun _ => rfl) fun _ => rfl
  | .invoke _ _ _ args => (exprs symbols args).bind fun _ => hw.call _ _ _
  | .binary _ _ op left right => by
    unfold Writer.expr Typed.Expr.lower
    split
    · exact hw.shortCircuit ((expr symbols left).bind fun _ => hw.load _ _)
        ((expr symbols right).bind fun _ => hw.load _ _)
    · exact (expr symbols left).bind fun op => (hw.load _ op).bind fun _ =>
        (expr symbols right).bind fun op' => (hw.load _ op').bind fun _ =>
        hw.computed (fun _ => rfl) fun _ => rfl
  | .addressOf _ _ inner =>
    (expr symbols inner).bind fun op => (hw.address _ op).bind fun _ => .pure _
  | .dereference _ _ inner =>
    (expr symbols inner).bind fun op => (hw.load _ op).bind fun _ => .pure _
  | .index _ _ target i =>
    hw.element (hw.elements (expr symbols target))
      ((expr symbols i).bind fun _ => hw.load _ _)
  | .field _ _ target _ place => hw.field (expr symbols target) place

theorem exprs (symbols : SymbolTable) : (es : List Typed.Expr) →
    Agrees (w.exprs symbols es) (Typed.Expr.lowerAll symbols es)
  | [] => by
    exact .pure _
  | e :: es =>
    (expr symbols e).bind fun op => (hw.load _ op).bind fun _ =>
      (exprs symbols es).bind fun _ => .pure _

end

theorem value (symbols : SymbolTable) (e : Typed.Expr) :
    Agrees (w.value symbols e) (e.lowerValue symbols) :=
  (hw.expr symbols e).bind fun _ => hw.load _ _

theorem addressOf (symbols : SymbolTable) (e : Typed.Expr) :
    Agrees (w.addressOf symbols e) (e.lowerAddress symbols) :=
  (hw.expr symbols e).bind fun _ => hw.address _ _

theorem optionalValue (symbols : SymbolTable) (value : Option Typed.Expr) :
    Agrees (w.optionalValue symbols value) (Lowering.optionalValue symbols value) := by
  cases value with
  | none => exact .pure _
  | some e => exact (hw.value symbols e).bind fun _ => .pure _

/-! ### Statements -/

theorem ifThen {thenBody : Step Draft Unit} {thenBody' : Lower Unit}
    (hcond : Agrees condition condition')
    (hthen : AgreesIn outer thenBody thenBody') (hthen' : Extending outer thenBody') :
    AgreesIn outer (w.ifThen condition thenBody) (Lowering.ifThen condition' thenBody') := by
  refine hcond.bindIn fun value b hopen hloop => hw.fork hopen ("if.then", "if.end") ?_
  have hfork : (b.enterThen "if.end" value).IsOpen := isOpen_fork hopen _ _
  have hloop1 : (b.enterThen "if.end" value).Admits outer :=
    hloop.mono (by simp [Builder.enterThen])
  refine (hthen hfork hloop1).bind fun _ b1 hrun => ?_
  have hlt := (hthen' hfork hloop1 hrun).current_lt hfork.lt
  exact (hw.fallInto hlt _).bind fun _ b2 _ => .quiet (moveTo_run _ b2)

theorem join {thenExit elseExit : IR.BlockId} (hthen : thenExit < b.blocks.length)
    (helse : elseExit < b.blocks.length) :
    Mirrors (w.join thenExit elseExit) (Lowering.join thenExit elseExit) b := by
  refine .quiet_bind (isClosed_run thenExit b) (.quiet_bind (isClosed_run elseExit b) ?_)
  split
  · exact .pure () b
  · refine .quiet_bind (newBlock_run _ b) ?_
    have hthen' : thenExit < (b.withBlock "if.end").blocks.length := by
      rw [withBlock_length]
      exact Nat.lt_succ_of_lt hthen
    refine (hw.fallFrom hthen' _).bind fun _ b1 hfall => ?_
    rw [fallFrom_run, Except.ok.injEq, Prod.mk.injEq] at hfall
    have helse' : elseExit < b1.blocks.length := by
      rw [← hfall.2, Builder.fallingFrom_length, withBlock_length]
      exact Nat.lt_succ_of_lt helse
    exact (hw.fallFrom helse' _).bind fun _ b2 _ => .quiet (moveTo_run _ b2)

theorem ifThenElse {thenBody elseBody : Step Draft Unit} {thenBody' elseBody' : Lower Unit}
    (hcond : Agrees condition condition') (hthen : AgreesIn outer thenBody thenBody')
    (hthen' : Extending outer thenBody') (helse : AgreesIn outer elseBody elseBody')
    (helse' : Extending outer elseBody') :
    AgreesIn outer (w.ifThenElse condition thenBody elseBody)
      (Lowering.ifThenElse condition' thenBody' elseBody') := by
  refine hcond.bindIn fun value b hopen hloop => hw.fork hopen ("if.then", "if.else") ?_
  have hfork : (b.enterThen "if.else" value).IsOpen := isOpen_fork hopen _ _
  have hloop1 : (b.enterThen "if.else" value).Admits outer :=
    hloop.mono (by simp [Builder.enterThen])
  refine (hthen hfork hloop1).bind fun _ b1 hrun => ?_
  have hext1 := hthen' hfork hloop1 hrun
  refine .quiet_bind (currentBlock_run b1) (.quiet_bind (moveTo_run _ b1) ?_)
  -- The block of the `else` branch is not touched by the `then` branch.
  have helse1 : (b1.movedTo (b.blocks.length + 1)).IsOpen :=
    hext1.openAt (Builder.openAt_fork hopen _ _) (Nat.succ_ne_self _)
  have hloop2 : (b1.movedTo (b.blocks.length + 1)).Admits outer := hloop1.mono hext1.length_le
  refine (helse helse1 hloop2).bind fun _ b2 hrun' => ?_
  have hext2 := helse' helse1 hloop2 hrun'
  refine .quiet_bind (currentBlock_run b2) ?_
  exact hw.join (Nat.lt_of_lt_of_le (hext1.current_lt hfork.lt) hext2.length_le)
    (hext2.current_lt helse1.lt)

theorem loop {body : LoopTargets → Step Draft Unit} {body' : LoopTargets → Lower Unit}
    (hcond : Agrees condition condition')
    (hbody : ∀ targets, AgreesIn (some targets) (body targets) (body' targets))
    (hbody' : ∀ targets, Extending (some targets) (body' targets)) :
    AgreesIn outer (w.loop condition body) (Lowering.loop condition' body') := by
  intro b hopen _
  refine .quiet_bind (newBlock_run _ _) (.quiet_bind (newBlock_run _ _)
    (.quiet_bind (newBlock_run _ _) ?_))
  have hlt : b.withLoop.current < b.withLoop.blocks.length := by
    rw [Builder.withLoop_length]
    exact Nat.lt_add_right 3 hopen.lt
  refine (hw.fallInto hlt _).bind fun _ b0 hfall => ?_
  rw [fallInto_run, Except.ok.injEq, Prod.mk.injEq] at hfall
  obtain ⟨-, rfl⟩ := hfall
  refine .quiet_bind (moveTo_run _ _) ?_
  rw [withBlock_length, withBlock_length, withBlock_length]
  -- The condition, in the first block of the loop.
  have hopenLoop : b.enterLoop.IsOpen := Builder.openAt_enterLoop hopen (n := 0) (by decide)
  refine (hcond.mirrors hopenLoop).bind fun value b1 hrun => ?_
  obtain ⟨hext1, hopen1⟩ := hcond.advances hopenLoop hrun
  refine (hw.close hopen1 _).bind fun _ b2 hclose => ?_
  obtain ⟨-, rfl⟩ := hclose
  refine .quiet_bind (moveTo_run _ _) ?_
  -- The body, in the second.
  have hbodyOpen : b.enterLoop.OpenAt (b.blocks.length + 1) :=
    Builder.openAt_enterLoop hopen (by decide)
  have hne : b.enterLoop.current ≠ b.blocks.length + 1 := (Nat.succ_ne_self _).symm
  have hopenBody : (b1.enterBody b.blocks.length value).IsOpen :=
    (hext1.openAt hbodyOpen hne.symm).withTerminator (hext1.current_ne hbodyOpen.lt hne) _
  have hadmits : (b1.enterBody b.blocks.length value).Admits (some b.loopTargets) :=
    Builder.admits_loopTargets hopen (by simpa [Builder.enterBody] using hext1.length_le)
  refine (hbody b.loopTargets hopenBody hadmits).bind fun _ b3 hrun' => ?_
  have hext3 := hbody' b.loopTargets hopenBody hadmits hrun'
  exact (hw.fallInto (hext3.current_lt hopenBody.lt) _).bind fun _ b4 _ =>
    .quiet (moveTo_run _ b4)

theorem loopJump (outer : Option LoopTargets) (target : LoopTargets → IR.BlockId) (span : Span) :
    AgreesIn outer (w.loopJump outer target span) (Lowering.loopJump outer target span) := by
  cases outer with
  | none => exact (Agrees.refuse span _).agreesIn none
  | some _ => exact fun _ hopen _ => hw.close hopen _

theorem binding (loop : Option LoopTargets) (symbols : SymbolTable) (symbol : SymbolId)
    (value : Option Typed.Expr) :
    AgreesIn loop (w.binding symbols symbol value) (Lowering.binding symbols symbol value) := by
  refine (Agrees.reserve _).bindIn fun slot =>
    (hw.optionalValue symbols value).bindIn fun initial => ?_
  cases initial with
  | none => exact fun b _ _ => .quiet (bindSlot_run symbol slot b)
  | some v => exact (hw.storeSlot slot v).bindIn fun _ b _ _ => .quiet (bindSlot_run symbol slot b)

end

mutual

theorem stmt (hw : w.OnOpen) (symbols : SymbolTable) (outer : Option LoopTargets) :
    (s : Typed.Stmt) → AgreesIn outer (w.stmt symbols outer s) (s.lower symbols outer)
  | .block stmts _ => by
    exact hw.block symbols outer stmts
  | .binding symbol value _ => hw.binding outer symbols symbol value
  | .expression value => (hw.value symbols value).bindIn fun _ b _ _ => .pure () b
  | .ret value _ => (hw.optionalValue symbols value).bindIn fun _ _ hopen _ => hw.close hopen _
  | .assign target value _ =>
    (hw.addressOf symbols target).bindIn fun _ => (hw.value symbols value).bindIn fun _ =>
      (hw.emits rfl).agreesIn outer
  | .conditional condition thenBody none _ =>
    hw.ifThen (hw.value symbols condition) (hw.stmt symbols outer thenBody)
      (thenBody.extending_lower symbols outer)
  | .conditional condition thenBody (some elseBody) _ =>
    hw.ifThenElse (hw.value symbols condition) (hw.stmt symbols outer thenBody)
      (thenBody.extending_lower symbols outer) (hw.stmt symbols outer elseBody)
      (elseBody.extending_lower symbols outer)
  | .whileLoop condition body none _ =>
    hw.loop (hw.value symbols condition) (fun targets => hw.stmt symbols (some targets) body)
      fun targets => body.extending_lower symbols (some targets)
  | .whileLoop _ _ (some _) span | .yield _ span => (Agrees.refuse span _).agreesIn outer
  | .deadCode _ _ => fun b _ _ => .pure () b
  | .breakLoop _ | .continueLoop _ => hw.loopJump outer _ _

theorem block (hw : w.OnOpen) (symbols : SymbolTable) (outer : Option LoopTargets) :
    (all : List Typed.Stmt) →
    AgreesIn outer (w.block symbols outer all) (Typed.Stmt.lowerBlock symbols outer all)
  | [] => fun b _ _ => .pure () b
  | first :: rest => by
    intro b hopen hloop
    refine .quiet_bind (currentBlock_run b) (.quiet_bind (isClosed_run _ b) ?_)
    rw [hopen.isClosed]
    refine (hw.stmt symbols outer first hopen hloop).bind fun _ b1 hrun => ?_
    have hext := first.extending_lower symbols outer hopen hloop hrun
    -- Nothing is added after a statement that closed the current block.
    cases hclosed : b1.isClosed b1.current with
    | true =>
      cases rest with
      | nil => exact .pure () b1
      | cons _ _ =>
        refine .quiet_bind (currentBlock_run b1) (.quiet_bind (isClosed_run _ b1) ?_)
        rw [hclosed]
        exact .pure () b1
    | false =>
      exact hw.block symbols outer rest
        (Builder.openAt_of_not_closed (hext.current_lt hopen.lt) hclosed)
        (hloop.mono hext.length_le)

end

section

variable (hw : w.OnOpen)
include hw

/-! ### Programs -/

section

variable (symbols : SymbolTable)
include symbols

theorem params (ids : List SymbolId) (next : Nat) :
    AgreesIn none (w.params symbols next ids) (Lowering.params symbols next ids) := by
  induction ids generalizing next with
  | nil => exact fun b _ _ => .pure () b
  | cons symbol _ ih =>
    refine (Agrees.reserve _).bindIn fun slot =>
      (hw.storeSlot slot _).bindIn fun _ b hopen hloop => ?_
    exact .quiet_bind (bindSlot_run symbol slot b) (ih (next + 1) hopen hloop)

theorem body (returnsVoid : Bool) (b : Typed.Body) :
    AgreesIn none (w.body symbols returnsVoid b) (Lowering.body symbols returnsVoid b) := by
  cases b with
  | empty => exact fun b _ _ => .pure () b
  | block stmts _ => exact hw.block symbols none stmts
  | expression value => exact (hw.value symbols value).bindIn fun _ _ hopen _ => hw.close hopen _

/-- The code of a function is written as lowering writes it, from the empty function. -/
theorem code (returnsVoid : Bool) (f : Typed.Function) :
    Mirrors (w.code symbols returnsVoid f) (Lowering.code symbols returnsVoid f) .start := by
  refine (hw.params symbols f.params 0 Builder.isOpen_start
    (admits_none _)).bind fun _ b h => ?_
  have hopen := (Lowering.advances_params symbols f.params 0 Builder.isOpen_start h).2
  exact hw.body symbols returnsVoid f.body hopen (admits_none b)

theorem blocks (returnsVoid : Bool) (f : Typed.Function) :
    Runs (w.blocks symbols returnsVoid f) (Lowering.blocks symbols returnsVoid f) := by
  intro log
  have hend := hw.code symbols returnsVoid f log
  unfold Lowering.blocks
  revert hend
  generalize hrun : w.code symbols returnsVoid f ⟨log, .start⟩ = run,
    Lowering.code symbols returnsVoid f .start = result
  intro hend
  cases hend with
  | @stopped _ d h =>
    have hwritten : w.written symbols returnsVoid f ⟨log, .start⟩ = .ok (none, d) :=
      Step.bind_none hrun _
    rw [Writer.blocks, Step.bind_none (Step.nested_eq (⟨·, .start⟩) Draft.toLog hwritten), h]
    rfl
  | passed a b =>
    have hwritten : w.written symbols returnsVoid f ⟨log, .start⟩ = .ok (some b.blocks, ⟨log, b⟩) :=
      Step.bind_some hrun _
    rw [Writer.blocks, Step.bind_some (Step.nested_eq (⟨·, .start⟩) Draft.toLog hwritten)]
    exact runs_complete returnsVoid f b.blocks log

theorem addFunction (m : IR.Module) (f : Typed.Function) :
    Runs (w.addFunction symbols m f) (Lowering.addFunction symbols m f) := by
  unfold Writer.addFunction Lowering.addFunction
  cases (symbols.symbolAt f.symbol).signature? with
  | none => exact .refused _
  | some _ =>
    cases f.body with
    | empty => exact .pure _
    | _ => exact (hw.blocks symbols _ f).bind fun _ _ => .pure _

theorem addDecl (m : IR.Module) (decl : Typed.Decl) :
    Runs (w.addDecl symbols m decl) (Lowering.addDecl symbols m decl) := by
  cases decl with
  | function f => exact hw.addFunction symbols m f
  | enum _ _ => exact .pure _
  | struct symbol _ =>
    simp only [Writer.addDecl, Lowering.addDecl]
    cases (symbols.symbolAt symbol).ty <;> exact .pure _

theorem addDecls (decls : List Typed.Decl) (m : IR.Module) :
    Runs (decls.foldlM (w.addDecl symbols) m) (decls.foldlM (Lowering.addDecl symbols) m) := by
  induction decls generalizing m with
  | nil => exact .pure m
  | cons decl _ ih =>
    exact (hw.addDecl symbols m decl).bind fun m' _ => ih m'

end

end

end OnOpen

/-- A writer that works as usual on open blocks gives the module that lowering gives, or reports its
fault and stops. -/
theorem program_runs {w : Writer} (hw : w.OnOpen) (p : Typed.Program) (name : String) :
    Runs (w.program p name) (p.lower name) :=
  hw.addDecls p.symbols p.decls (.empty name)

end Writer

end Laye
