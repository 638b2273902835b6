import Laye.Proofs.Lowering.Functions
import Laye.Proofs.Typing.Places
import Laye.Proofs.Typing.Writing

/-!
# Expressions without a value

A call of a function that gives nothing has the type `void`, and so has what a `void` pointer points
to. Such an expression has no value, and most places that need one refuse it: variables,
parameters, conditions, `return` and nearly all operators. `checkProgram_void` says where it can
stand in an accepted program. Three places besides those meant for it let it through: `==` and `!=`
compare two of them, one may be assigned to another, and `&` takes the address of what a `void`
pointer points to. `checkProgram_blank` is a program with the first two.
-/

namespace Laye

/-! ### Parameters have values -/

/-- No function of the table has a parameter without a value. -/
def SymbolTable.TakesValues (symbols : SymbolTable) : Prop :=
  ∀ symbol ∈ symbols, ∀ signature, symbol.signature? = some signature →
    ∀ ty ∈ signature.paramTypes, ty ≠ .void

namespace Declarations

variable {decls : List TopLevel} {names : TypeNames}

theorem ne_void_of_paramTypes {params : List Param} {result : List (String × Ty)}
    (h : paramTypes names params = .ok result) : ∀ param ∈ result, param.2 ≠ .void := by
  induction params generalizing result with
  | nil =>
    cases h
    simp
  | cons _ _ ih =>
    obtain ⟨_, -, h⟩ := Typing.bind_eq_ok.mp h
    have hvoid := Typing.not_of_unless h
    obtain ⟨_, hrest, h⟩ := Typing.bind_eq_ok.mp (Typing.unless_eq_ok h)
    cases h
    intro param' hmem
    rcases List.mem_cons.mp hmem with rfl | hmem
    · rintro rfl
      exact hvoid rfl
    · exact ih hrest param' hmem

theorem IsSymbol.ne_void_of_signature? {decl : TopLevel} {symbol : Symbol} {signature : Signature}
    (h : IsSymbol decls decl symbol) (hsignature : symbol.signature? = some signature) :
    ∀ ty ∈ signature.paramTypes, ty ≠ .void := by
  unfold Symbol.signature? at hsignature
  split at hsignature
  · rename_i _ hty
    cases hsignature
    have htype := h.type
    rw [hty] at htype
    cases decl with
    | struct _ | enum _ =>
      obtain ⟨_, -, htype⟩ := Typing.bind_eq_ok.mp htype
      cases htype
    | function _ =>
      obtain ⟨_, -, htype⟩ := Typing.bind_eq_ok.mp htype
      obtain ⟨_, -, htype⟩ := Typing.bind_eq_ok.mp (Typing.unless_eq_ok htype)
      obtain ⟨_, hparams, htype⟩ := Typing.bind_eq_ok.mp htype
      cases htype
      intro ty hty
      obtain ⟨param, hparam, rfl⟩ := List.mem_map.mp hty
      exact ne_void_of_paramTypes hparams param hparam
  · cases hsignature

end Declarations

theorem Places.takesValues {tops : List TopLevel} {p : Typed.Program} (h : Places tops p) :
    p.symbols.TakesValues := by
  intro symbol hmem signature hsignature
  have hkind : symbol.kind ≠ .binding := by
    intro hkind
    simp [Symbol.signature?, hkind] at hsignature
  obtain ⟨_, _, -, -, his⟩ := h.top_of_symbol hmem hkind
  exact his.ne_void_of_signature? hsignature

namespace Typed

/-! ### Operands without a value -/

namespace Expr

/-- The expressions that the expression is applied to. -/
def operands : Expr → List Expr
  | .cast _ _ inner | .materialize _ _ inner | .unary _ _ _ inner | .addressOf _ _ inner
  | .dereference _ _ inner | .field _ _ inner _ _ => [inner]
  | .invoke _ _ _ args => args
  | .binary _ _ _ left right | .index _ _ left right => [left, right]
  | .integer _ _ _ _ | .float _ _ _ | .bool _ _ _ | .string _ _ _ | .load _ _ _ => []

/-- The ways in which an expression can have operands without a value. -/
inductive TakesVoid (symbols : SymbolTable) : Expr → Prop where
  | equality {ty : Ty} {op : BinaryOp} {left right : Expr} (span : Span)
      (hop : op.isEquality = true) (hleft : left.ty = .void) (hright : right.ty = .void) :
      TakesVoid symbols (.binary ty span op left right)
  /-- The address of a place, which reads nothing from it. -/
  | address {ty : Ty} {inner : Expr} (span : Span) (hvoid : inner.ty = .void)
      (hplace : inner.isPlace symbols.isBinding = true) :
      TakesVoid symbols (.addressOf ty span inner)

variable {symbols : SymbolTable}

theorem Arguments.ne_void {signature : Signature} {args : List Expr}
    (h : Arguments signature args) (hparams : ∀ ty ∈ signature.paramTypes, ty ≠ .void) {arg : Expr}
    (hmem : arg ∈ args) : arg.ty ≠ .void := by
  rw [← List.take_append_drop signature.params.length args] at hmem
  rcases List.mem_append.mp hmem with hmem | hmem
  · refine hparams _ (h.leading ▸ ?_)
    rw [← List.map_take]
    exact List.mem_map_of_mem hmem
  · exact (h.surplus arg hmem).value

theorem isEquality_of_accepts {op : BinaryOp} (h : op.Accepts .void) : op.isEquality = true := by
  cases op with
  | eq | ne => rfl
  | lt | le | gt | ge => rcases h with h | h | h <;> cases h
  | add | sub | mul | div | mod => rcases h with h | h <;> cases h
  | _ => cases h

/-- An operand of a well-typed expression has a value, unless it is compared with another one that
has none or only its address is taken. -/
theorem WellTyped.takesVoid {e operand : Expr} (hparams : symbols.TakesValues)
    (h : e.WellTyped symbols) (hmem : operand ∈ e.operands) (hvoid : operand.ty = .void) :
    e.TakesVoid symbols := by
  cases h with
  | cast _ _ hcast _ =>
    rw [← List.mem_singleton.mp hmem, hvoid] at hcast
    cases hcast with
    | integerToFloat hinteger => cases hinteger
  | materialize _ _ hslice =>
    rw [← List.mem_singleton.mp hmem, hvoid] at hslice
    cases hslice
  | invoke _ hsymbol hsignature _ hmatch =>
    have htys := hparams _ (List.mem_of_getElem? hsymbol) _ hsignature
    exact absurd hvoid (hmatch.ne_void htys hmem)
  | @unary op _ _ _ haccepts =>
    rw [← List.mem_singleton.mp hmem, hvoid] at haccepts
    cases op with
    | neg => rcases haccepts with h | ⟨_, h⟩ | h | ⟨_, h⟩ <;> cases h
    | _ => cases haccepts
  | @binary _ left _ span _ _ hsame haccepts =>
    rcases hsame with hsame | ⟨-, hmixed⟩
    · have hleft : left.ty = .void := by
        rcases List.mem_pair.mp hmem with rfl | rfl
        · exact hvoid
        · exact hsame.trans hvoid
      rw [hleft] at haccepts
      exact .equality span (isEquality_of_accepts haccepts) hleft (hsame ▸ hleft)
    · cases hmixed
      rcases List.mem_pair.mp hmem with rfl | rfl <;> cases hvoid
  | addressOf span _ hplace =>
    obtain rfl := List.mem_singleton.mp hmem
    exact .address span hvoid hplace
  | dereference _ _ hpointer =>
    rw [← List.mem_singleton.mp hmem, hvoid] at hpointer
    cases hpointer
  | index _ _ _ helement hinteger =>
    rcases List.mem_pair.mp hmem with rfl | rfl
    · rw [hvoid] at helement
      cases helement
    · rw [hvoid] at hinteger
      cases hinteger
  | field _ _ hstruct _ _ =>
    rw [← List.mem_singleton.mp hmem, hvoid] at hstruct
    cases hstruct
  | _ => cases hmem

end Expr

namespace Stmt

/-- The ways in which a statement can have operands without a value. -/
inductive TakesVoid : Stmt → Prop where
  | expression {value : Expr} (hvoid : value.ty = .void) : TakesVoid (.expression value)
  | yield {value : Expr} (span : Span) (hvoid : value.ty = .void) :
      TakesVoid (.yield (some value) span)
  | assign {target value : Expr} (span : Span) (htarget : target.ty = .void)
      (hvalue : value.ty = .void) : TakesVoid (.assign target value span)

theorem WellTyped.takesVoid {symbols : SymbolTable} {returnType : Ty} {inLoop : Bool} {s : Stmt}
    {operand : Expr} (h : s.WellTyped symbols returnType inLoop) (hmem : operand ∈ s.operands)
    (hvoid : operand.ty = .void) : s.TakesVoid := by
  cases h with
  | binding _ _ _ hvalue hty =>
    obtain ⟨-, hsame⟩ := hty operand (Option.mem_toList.mp hmem)
    exact absurd (hsame ▸ hvoid) hvalue
  | expression _ =>
    obtain rfl := List.mem_singleton.mp hmem
    exact .expression hvoid
  | ret _ hvalue =>
    rw [Option.mem_toList.mp hmem] at hvalue
    exact absurd (hvalue.2.2 ▸ hvoid) hvalue.1
  | assign span _ _ _ _ hsame =>
    rcases List.mem_pair.mp hmem with rfl | rfl
    · exact .assign span hvoid (hsame.trans hvoid)
    · exact .assign span (hsame ▸ hvoid) hvoid
  | conditional _ _ hbool _ _ | whileLoop _ _ hbool _ _ =>
    rw [← List.mem_singleton.mp hmem, hvoid] at hbool
    cases hbool
  | yield span _ =>
    rw [Option.mem_toList.mp hmem]
    exact .yield span hvoid
  | _ => cases hmem

end Stmt

end Typed

/-- In an accepted program, an expression without a value stands for itself as a statement, after
`yield` or as the body of a function that gives none. Else it is an operand of `==` or `!=`, or a
side of an assignment, together with another one, or only its address is taken. -/
theorem checkProgram_void {keepGoing : Bool} {trees : List SyntaxTree} {p : Typed.Program}
    (h : (checkProgram keepGoing trees).program = some p) {f : Typed.Function}
    (hf : .function f ∈ p.decls) :
    (∀ e ∈ f.body.exprs, ∀ operand ∈ e.operands, operand.ty = .void → e.TakesVoid p.symbols) ∧
    (∀ s ∈ f.body.stmts, ∀ operand ∈ s.operands, operand.ty = .void → s.TakesVoid) ∧
    ∀ value, f.body = .expression value → value.ty = .void → f.returnsVoid p.symbols = true := by
  obtain ⟨signature, hwell⟩ := (accepted_wellTyped h).2 f hf
  have hparams := (accepted_places h).takesValues
  refine ⟨fun e he operand hmem hvoid => ?_, fun s hs operand hmem hvoid => ?_,
    fun value hbody hvoid => ?_⟩
  · exact (hwell.body.of_mem_exprs he).takesVoid hparams hmem hvoid
  · obtain ⟨inLoop, hs⟩ := hwell.body.of_mem_stmts hs
    exact hs.takesVoid hmem hvoid
  · have hreturns := hwell.body
    rw [hbody] at hreturns
    obtain ⟨symbol, hsymbol, -, hsignature⟩ := hwell.symbol
    rw [Typed.Function.returnsVoid, SymbolTable.symbolAt_eq hsymbol, hsignature, Option.any_some,
      ← hreturns.2, hvoid]
    rfl

open Plain in
/-- A comparison and an assignment of nothing: `void f();` and
`void g(void* p, void* q) { f() == *p; *p = *q; }`. -/
def SyntaxTree.blank : SyntaxTree :=
  let nothing (pointer : String) : Expr := target (name pointer)
  { sourceName := "blank"
    decls := [
      .function ⟨[], keyword "void", ident "f", [], .none, .empty .nowhere, .nowhere⟩,
      function (keyword "void") "g"
        [param (pointer (keyword "void")) "p", param (pointer (keyword "void")) "q"]
        [.expression (.binary .eq (.invoke (name "f") [] .nowhere) (nothing "p") .nowhere),
          assign (nothing "p") (nothing "q")]] }

/-- Whether the expression compares two that have no value. -/
def Typed.Expr.comparesVoid : Typed.Expr → Bool
  | .binary _ _ op left right => op.isEquality && left.ty.isVoid && right.ty.isVoid
  | _ => false

/-- Whether the statement assigns an expression that has no value. -/
def Typed.Stmt.assignsVoid : Typed.Stmt → Bool
  | .assign _ value _ => value.ty.isVoid
  | _ => false

theorem checkProgram_void_blank :
    ∃ p f e operand, (checkProgram false [.blank]).program = some p ∧ .function f ∈ p.decls ∧
      e ∈ f.body.exprs ∧ operand ∈ e.operands ∧ operand.ty = .void ∧ e.TakesVoid p.symbols := by
  obtain ⟨p, f, hp, hf, hcompares⟩ : ∃ p f, (checkProgram false [.blank]).program = some p ∧
      .function f ∈ p.decls ∧ f.body.exprs.any Typed.Expr.comparesVoid = true :=
    exists_function_of_any (by decide +kernel)
  obtain ⟨e, he, hvoid⟩ := List.any_eq_true.mp hcompares
  cases e with
  | binary ty span op left right =>
    simp only [Typed.Expr.comparesVoid, Bool.and_eq_true] at hvoid
    have hleft := Ty.eq_void_of_isVoid hvoid.1.2
    have hmem : left ∈ (Typed.Expr.binary ty span op left right).operands := by
      simp [Typed.Expr.operands]
    exact ⟨p, f, _, left, hp, hf, he, hmem, hleft,
      (checkProgram_void hp hf).1 _ he left hmem hleft⟩
  | _ => cases hvoid

/-- Two expressions without a value are compared, and one is assigned, in a program that is
accepted. -/
theorem checkProgram_blank :
    ∃ p f, (checkProgram false [.blank]).program = some p ∧ .function f ∈ p.decls ∧
      (∃ ty span op left right, .binary ty span op left right ∈ f.body.exprs ∧
        left.ty = .void ∧ right.ty = .void) ∧
      ∃ target value span, .assign target value span ∈ f.body.stmts ∧ value.ty = .void := by
  obtain ⟨p, f, hp, hf, htest⟩ : ∃ p f, (checkProgram false [.blank]).program = some p ∧
      .function f ∈ p.decls ∧ (f.body.exprs.any Typed.Expr.comparesVoid &&
        f.body.stmts.any Typed.Stmt.assignsVoid) = true :=
    exists_function_of_any (by decide +kernel)
  obtain ⟨hcompares, hassigns⟩ := Bool.and_eq_true_iff.mp htest
  obtain ⟨e, he, hvoid⟩ := List.any_eq_true.mp hcompares
  obtain ⟨s, hs, hvoid'⟩ := List.any_eq_true.mp hassigns
  refine ⟨p, f, hp, hf, ?_, ?_⟩
  · cases e with
    | binary ty span op left right =>
      simp only [Typed.Expr.comparesVoid, Bool.and_eq_true] at hvoid
      exact ⟨ty, span, op, left, right, he, Ty.eq_void_of_isVoid hvoid.1.2,
        Ty.eq_void_of_isVoid hvoid.2⟩
    | _ => cases hvoid
  · cases s with
    | assign target value span => exact ⟨target, value, span, hs, Ty.eq_void_of_isVoid hvoid'⟩
    | _ => cases hvoid'

end Laye
