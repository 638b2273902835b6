import Laye.Proofs.Regular.Expression

/-!
# Types and literals of accepted programs

Checking a statement keeps the types of all symbols in normal form and gives a statement whose
expressions are regular. `Check.KeepsRegular` says this of a step and has a rule for each way in
which steps are put together; where the context has to be sound, the rules take that from
`Check.Ensures`. `Stmt.check_regular` follows the checker with these rules.

`accepted_regular` is the result for a whole program, and `inNormalForm_of_accepted` what it says
about types at any depth. -/

namespace Laye

open Typing (bind_eq_ok)

theorem Ty.Normal.grounded {symbols : SymbolTable} {behind : Bool} {ty : Ty}
    (h : ty.Normal symbols behind) : ty.Grounded symbols.IsStruct := by
  induction h with
  | keyword hty =>
    rename_i ty
    cases ty <;> trivial
  | enum => trivial
  | structRef hname => exact hname
  | struct hname _ ih => exact ⟨isStruct_of_defines hname, Ty.fieldsGrounded_of_forall ih⟩
  | array _ _ _ _ ih | pointer _ _ ih | buffer _ _ _ ih | slice _ _ _ ih => exact ih
  | function _ _ _ ihreturn ihparams =>
    exact Signature.grounded_iff.mpr ⟨ihreturn, Ty.fieldsGrounded_of_forall ihparams⟩

/-! ### Regular statements -/

namespace Typed

namespace Stmt

/-- All expressions of the statement are regular, those of the statements in it included. -/
def Regular (table : SymbolTable) (s : Stmt) : Prop :=
  ∀ s' ∈ s.nodes, ∀ e ∈ s'.operands, e.Regular table

variable {table : SymbolTable} {s : Stmt}

theorem regular_iff : s.Regular table ↔ (∀ e ∈ s.operands, e.Regular table) ∧
    ∀ s' ∈ s.nodes.tail, ∀ e ∈ s'.operands, e.Regular table := by
  simp only [Regular, mem_nodes, forall_eq_or_imp]

theorem regular_leaf (hoperands : ∀ e ∈ s.operands, e.Regular table) (htail : s.nodes.tail = []) :
    s.Regular table :=
  regular_iff.mpr ⟨hoperands, by simp [htail]⟩

theorem regular_all {stmts : List Stmt} (h : ∀ stmt ∈ stmts, stmt.Regular table)
    (hoperands : s.operands = []) (htail : s.nodes.tail = nodesAll stmts) : s.Regular table := by
  refine regular_iff.mpr ⟨by simp [hoperands], fun s' hs' => ?_⟩
  rw [htail] at hs'
  obtain ⟨stmt, hstmt, hs'⟩ := mem_nodesAll.mp hs'
  exact h stmt hstmt s' hs'

theorem regular_branches {condition : Expr} {body : Stmt} {elseBody : Option Stmt}
    (hcondition : condition.Regular table) (hbody : body.Regular table)
    (helse : ∀ stmt ∈ elseBody, stmt.Regular table) (hoperands : s.operands = [condition])
    (htail : s.nodes.tail = body.nodes ++ nodesAll elseBody.toList) : s.Regular table := by
  refine regular_iff.mpr ⟨by simpa [hoperands] using hcondition, fun s' hs' => ?_⟩
  rw [htail] at hs'
  rcases List.mem_append.mp hs' with hs' | hs'
  · exact hbody s' hs'
  · obtain ⟨stmt, hstmt, hs'⟩ := mem_nodesAll.mp hs'
    exact helse stmt (Option.mem_toList.mp hstmt) s' hs'

end Stmt

/-- All expressions of the body are regular. -/
def Body.Regular (table : SymbolTable) (body : Body) : Prop :=
  ∀ e ∈ body.exprs, e.ty.Normal table false ∧ e.LiteralFits

theorem Body.regular_block {table : SymbolTable} {stmts : List Stmt} {span : Span}
    (h : ∀ stmt ∈ stmts, stmt.Regular table) : (Body.block stmts span).Regular table := by
  intro e he
  obtain ⟨stmt, hstmt, s, hs, operand, hoperand, he⟩ := Body.mem_exprs_block.mp he
  exact h stmt hstmt s hs operand hoperand e he

end Typed

/-! ### Parts of statements -/

namespace Context.Regular

variable {ctx : Context} {table : SymbolTable}

/-- In a regular context names mean types in normal form. -/
theorem typeNames (h : ctx.Regular table) (hctx : ctx.Sound) : ctx.typeNames.Normal table := by
  refine ⟨fun name hname => ?_, fun ident ty hty => ?_⟩
  · rw [← h.extends_table.isStruct_eq]
    exact hctx.isStruct hname
  · obtain ⟨symbol, hmem, rfl⟩ := hctx.mem_of_resolve hty
    exact h.types symbol hmem

theorem enclosing (h : ctx.Regular table) {signature : Signature} (hctx : ctx.Inside signature) :
    signature.returnType.Normal table false ∧
      ∀ param ∈ signature.params, param.2.Normal table false := by
  obtain ⟨_, _, -, hsymbol, hsignature⟩ := hctx.function
  exact h.signature (List.mem_of_getElem? hsymbol) hsignature

end Context.Regular

namespace Typing

variable {ctx : Context} {table : SymbolTable} {e : Expr} {t : Typed.Expr}

theorem exprAt_regular (hctx : ctx.Sound) (hregular : ctx.Regular table) {ty : Ty}
    (hty : ty.Normal table false) (h : exprAt ctx ty e = .ok t) : t.Regular table :=
  ((hregular.rules hctx).of_exprAt hty h).1

theorem exprAlone_regular (hctx : ctx.Sound) (hregular : ctx.Regular table)
    (h : exprAlone ctx e = .ok t) : t.Regular table :=
  (hregular.rules hctx).of_exprAlone h

variable {value : Option Expr} {value' : Option Typed.Expr}

theorem bindingParts_regular (hctx : ctx.Sound) (hregular : ctx.Regular table)
    {written : Option TypeExpr} {ident : Ident} {span : Span} {ty : Ty}
    (h : bindingParts ctx written ident value span = .ok (ty, value')) :
    ty.Normal table false ∧ ∀ t ∈ value', t.Regular table := by
  obtain ⟨hty, -, hvalue⟩ := (hregular.rules hctx).of_bindingParts
    (fun hresolve => TypeExpr.resolve_normal (hregular.typeNames hctx) _ _ hresolve)
    (fun _ ht => ht.ty) h
  refine ⟨hty, fun t ht => ?_⟩
  obtain ⟨_, ht, -⟩ := exists_of_rel hvalue ht
  exact ht

theorem returnValue_regular {signature : Signature} (hctx : ctx.Inside signature)
    (hregular : ctx.Regular table) {span : Span} (h : returnValue ctx value span = .ok value') :
    ∀ t ∈ value', t.Regular table := by
  obtain ⟨_, -, -, hvalue⟩ := (hregular.rules hctx.sound).of_returnValue
    (fun henclosing => by
      cases hctx.enclosingSignature?.symm.trans henclosing
      exact (hregular.enclosing hctx).1) h
  intro t ht
  obtain ⟨_, ht, -⟩ := exists_of_rel hvalue ht
  exact ht

theorem assignment_regular (hctx : ctx.Sound) (hregular : ctx.Regular table) {target value : Expr}
    {target' value' : Typed.Expr} (h : assignment ctx target value = .ok (target', value')) :
    target'.Regular table ∧ value'.Regular table := by
  obtain ⟨htarget, -, -, hvalue, -⟩ :=
    (hregular.rules hctx).of_assignment (fun htarget => htarget.ty) h
  exact ⟨htarget, hvalue⟩

end Typing

/-! ### Steps -/

namespace Check

variable {α β : Type} {signature : Signature} {table : SymbolTable}

/-- Made at a regular point of a function, the step ends at a regular point and gives what `post`
says. -/
def KeepsRegular (signature : Signature) (table : SymbolTable) (step : Check α)
    (post : α → Prop) : Prop :=
  ∀ ⦃s s' : Progress⦄ ⦃a : α⦄, s.Inside signature → s.Regular table → step s = .ok (a, s') →
    s'.Regular table ∧ post a

namespace KeepsRegular

variable {step : Check α} {next : α → Check β} {P : α → Prop} {Q : β → Prop}

theorem pure {a : α} (h : P a) : KeepsRegular signature table (Pure.pure a) P := by
  rintro s _ _ - hregular ⟨⟩
  exact ⟨hregular, h⟩

theorem bind {R : SymbolTable → α → Prop}
    (hensures : ∀ s : Progress, s.Inside signature → s.Regular table → Ensures signature s step R)
    (hstep : KeepsRegular signature table step P)
    (hnext : ∀ a, P a → KeepsRegular signature table (next a) Q) :
    KeepsRegular signature table (step >>= next) Q := by
  intro s s' b hs hregular h
  obtain ⟨a, middle, hrun, hrest⟩ := bind_eq_ok.mp h
  obtain ⟨hinside, -, -⟩ := hensures s hs hregular a middle hrun
  obtain ⟨hregular', ha⟩ := hstep hs hregular hrun
  exact hnext a ha hinside hregular' hrest

theorem attempt {f : Context → Except Fault α}
    (h : ∀ (ctx : Context) a, ctx.Inside signature → ctx.Regular table → f ctx = .ok a → P a)
    (hnext : ∀ a, P a → KeepsRegular signature table (next a) Q) :
    KeepsRegular signature table (context >>= fun ctx => Check.attempt (f ctx) >>= next) Q := by
  intro s s' b hs hregular hrun
  obtain ⟨_, _, hcontext, hrun⟩ := bind_eq_ok.mp hrun
  cases hcontext
  obtain ⟨a, _, hattempt, hrest⟩ := bind_eq_ok.mp hrun
  obtain ⟨ha, rfl⟩ := attempt_eq_ok hattempt
  exact hnext a (h _ a hs hregular ha) hs hregular hrest

theorem inScope (hstep : KeepsRegular signature table step P) :
    KeepsRegular signature table (Check.inScope none step) P := by
  intro s s' a hs hregular h
  obtain ⟨_, hrun, rfl⟩ := inScope_eq_ok h
  obtain ⟨hregular', ha⟩ := hstep (s := { s with scopes := s.scopes.push none }) hs.push
    ⟨hregular.extends_table, hregular.types⟩ hrun
  exact ⟨⟨hregular'.extends_table, hregular'.types⟩, ha⟩

theorem declare {ident : Ident} {ty : Ty} {duplicate : Problem} (hty : ty.Normal table false) :
    KeepsRegular signature table (Check.declare ident ty duplicate) fun _ => True := by
  intro s s' id hs hregular h
  simp only [Check.declare] at h
  split at h
  · cases h
    refine ⟨⟨hregular.extends_table.trans ⟨_, rfl, by simp⟩, fun symbol hmem => ?_⟩, trivial⟩
    rcases List.mem_append.mp hmem with hmem | hmem
    · exact hregular.types symbol hmem
    · rw [List.mem_singleton.mp hmem]
      exact hty
  · cases h

theorem warn (span : Span) : KeepsRegular signature table (Check.warn span) fun _ => True := by
  rintro s _ _ - hregular ⟨⟩
  exact ⟨⟨hregular.extends_table, hregular.types⟩, trivial⟩

end KeepsRegular

theorem ensures_declare {ident : Ident} {ty : Ty} {duplicate : Problem}
    (hty : ty.Normal table false) (s : Progress) (hs : s.Inside signature)
    (hregular : s.Regular table) : Ensures signature s (declare ident ty duplicate)
      fun symbols id => Typed.IsVariable symbols id ty :=
  .declare hs (hregular.extends_table.isStruct_eq ▸ hty.grounded)

end Check

/-! ### Statements -/

namespace Stmt

open Check (KeepsRegular Ensures)

variable {signature : Signature} {table : SymbolTable}

mutual

/-- A checked statement is regular. -/
theorem check_regular : (inLoop : Bool) → (stmt : Stmt) →
    KeepsRegular signature table (stmt.check inLoop) (Typed.Stmt.Regular table)
  | inLoop, .block stmts span => by
    refine .bind (fun s hs _ => .inScope hs fun s' hs' => checkBlock_wellTyped inLoop stmts hs')
      (.inScope (checkBlock_regular inLoop stmts)) ?_
    intro stmts' hstmts
    exact .pure (Typed.Stmt.regular_all hstmts rfl rfl)
  | inLoop, .binding ty ident value span => by
    refine .attempt (P := fun part => part.1.Normal table false ∧ ∀ t ∈ part.2, t.Regular table)
      (fun ctx part hctx hregular h => Typing.bindingParts_regular hctx.sound hregular h) ?_
    rintro ⟨ty', value'⟩ ⟨hty, hvalue⟩
    refine .bind (Check.ensures_declare hty) (.declare hty) ?_
    intro id _
    exact .pure (Typed.Stmt.regular_leaf (by simpa [Typed.Stmt.operands] using hvalue) rfl)
  | inLoop, .expression value => by
    refine .attempt (P := Typed.Expr.Regular table)
      (fun ctx t hctx hregular h => Typing.exprAlone_regular hctx.sound hregular h) ?_
    intro value' hvalue
    exact .pure (Typed.Stmt.regular_leaf (by simpa [Typed.Stmt.operands] using hvalue) rfl)
  | inLoop, .ret value span => by
    refine .attempt (P := fun value => ∀ t ∈ value, Typed.Expr.Regular table t)
      (fun ctx value' hctx hregular h => Typing.returnValue_regular hctx hregular h) ?_
    intro value' hvalue
    exact .pure (Typed.Stmt.regular_leaf (by simpa [Typed.Stmt.operands] using hvalue) rfl)
  | inLoop, .assign target value span => by
    refine .attempt (P := fun sides => sides.1.Regular table ∧ sides.2.Regular table)
      (fun ctx sides hctx hregular h => Typing.assignment_regular hctx.sound hregular h) ?_
    rintro ⟨target', value'⟩ hsides
    exact .pure (Typed.Stmt.regular_leaf (by simpa [Typed.Stmt.operands] using hsides) rfl)
  | inLoop, .conditional _ body elseBody _ | inLoop, .whileLoop _ body elseBody _ => by
    refine .attempt (P := Typed.Expr.Regular table) (fun ctx t hctx hregular h =>
      Typing.exprAt_regular hctx.sound hregular (.keyword rfl) h) ?_
    intro condition' hcondition
    refine .bind (fun s hs _ => .inScope hs fun s' hs' => check_wellTyped _ body hs')
      (.inScope (check_regular _ body)) ?_
    intro body' hbody
    refine .bind (fun s hs _ => checkElse_wellTyped inLoop elseBody hs)
      (checkElse_regular inLoop elseBody) ?_
    intro elseBody' helse
    refine .pure (Typed.Stmt.regular_branches hcondition hbody helse rfl ?_)
    cases elseBody' <;> simp [Typed.Stmt.nodes, Typed.Stmt.nodesAll]
  | inLoop, .breakLoop span | inLoop, .continueLoop span => by
    intro s s' t hs hregular h
    obtain ⟨_, _, hattempt, h⟩ := Check.bind_eq_ok.mp h
    obtain ⟨-, rfl⟩ := Check.attempt_eq_ok hattempt
    cases h
    exact ⟨hregular, Typed.Stmt.regular_leaf (by simp [Typed.Stmt.operands]) rfl⟩
  | inLoop, .yield value span => by
    refine .attempt (P := fun value => ∀ t ∈ value, Typed.Expr.Regular table t) ?_ ?_
    · intro ctx value' hctx hregular h t ht
      obtain ⟨_, hchecked⟩ := Typing.exists_of_rel (Typing.optional_rel (fun _ _ => id) h) ht
      exact Typing.exprAlone_regular hctx.sound hregular hchecked
    · intro value' hvalue
      exact .pure (Typed.Stmt.regular_leaf (by simpa [Typed.Stmt.operands] using hvalue) rfl)

theorem checkBlock_regular : (inLoop : Bool) → (stmts : List Stmt) →
    KeepsRegular signature table (checkBlock inLoop stmts) fun ts =>
      ∀ t ∈ ts, t.Regular table
  | _, [] => .pure (by simp)
  | inLoop, stmt :: rest => by
    refine .bind (fun s hs _ => check_wellTyped inLoop stmt hs) (check_regular inLoop stmt) ?_
    intro stmt' hstmt
    split
    · split
      · exact .pure (by simpa using hstmt)
      · rename_i span _
        refine .bind (fun s hs _ => .warn hs span) (.warn span) ?_
        intro _ _
        refine .bind (fun s hs _ => checkAll_wellTyped inLoop rest hs)
          (checkAll_regular inLoop rest) ?_
        intro dead hdead
        exact .pure (by simpa using ⟨hstmt, Typed.Stmt.regular_all hdead rfl rfl⟩)
    · refine .bind (fun s hs _ => checkBlock_wellTyped inLoop rest hs)
        (checkBlock_regular inLoop rest) ?_
      intro rest' hrest
      exact .pure (List.forall_mem_cons.mpr ⟨hstmt, hrest⟩)

theorem checkAll_regular : (inLoop : Bool) → (stmts : List Stmt) →
    KeepsRegular signature table (checkAll inLoop stmts) fun ts => ∀ t ∈ ts, t.Regular table
  | _, [] => .pure (by simp)
  | inLoop, stmt :: rest => by
    refine .bind (fun s hs _ => check_wellTyped inLoop stmt hs) (check_regular inLoop stmt) ?_
    intro stmt' hstmt
    refine .bind (fun s hs _ => checkAll_wellTyped inLoop rest hs) (checkAll_regular inLoop rest) ?_
    intro rest' hrest
    exact .pure (List.forall_mem_cons.mpr ⟨hstmt, hrest⟩)

theorem checkElse_regular : (inLoop : Bool) → (stmt : Option Stmt) →
    KeepsRegular signature table (checkElse inLoop stmt) fun t? => ∀ t ∈ t?, t.Regular table
  | _, none => .pure (by simp)
  | inLoop, some stmt => by
    refine .bind (fun s hs _ => .inScope hs fun s' hs' => check_wellTyped inLoop stmt hs')
      (.inScope (check_regular inLoop stmt)) ?_
    intro stmt' hstmt
    exact .pure (by simpa using hstmt)

end

end Stmt

/-! ### Functions and programs -/

namespace Typing

open Check (KeepsRegular)

variable {signature : Signature} {table : SymbolTable}

theorem params_regular {given : List (Param × Ty)}
    (hgiven : ∀ param ∈ given, param.2.Normal table false) :
    KeepsRegular signature table (params given) fun _ => True := by
  induction given with
  | nil => exact .pure trivial
  | cons param _ ih =>
    obtain ⟨param, ty⟩ := param
    have hty := hgiven (param, ty) (by simp)
    intro s s' ids hs hregular h
    obtain ⟨_, _, hdeclare, h⟩ := Check.bind_eq_ok.mp h
    obtain ⟨_, _, hrest, h⟩ := Check.bind_eq_ok.mp h
    cases h
    obtain ⟨hs1, -, -⟩ := Check.ensures_declare hty s hs hregular _ _ hdeclare
    obtain ⟨hregular1, -⟩ := KeepsRegular.declare hty hs hregular hdeclare
    exact ih (fun param hparam => hgiven param (by simp [hparam])) hs1 hregular1 hrest

theorem body_regular (b : FunctionBody) (hreturn : signature.returnType.Normal table false) :
    KeepsRegular signature table (body signature.returnType b) (Typed.Body.Regular table) := by
  cases b with
  | empty _ => exact .pure (fun _ he => by cases he)
  | block stmts _ =>
    refine .bind (fun s hs _ => .inScope hs fun s' hs' => Stmt.checkBlock_wellTyped false stmts hs')
      (.inScope (Stmt.checkBlock_regular false stmts)) ?_
    intro stmts' hstmts
    exact .pure (Typed.Body.regular_block hstmts)
  | expression _ =>
    refine .attempt (P := Typed.Expr.Regular table)
      (fun ctx t hctx hregular h => exprAt_regular hctx.sound hregular hreturn h) ?_
    intro value' hvalue
    exact .pure hvalue

theorem function_regular {s s' : Progress} (hs : s.Sound) (hregular : s.Regular table)
    {id : SymbolId} {decl : FunctionDecl} (hdecl : IsFunction s.symbols id decl)
    {f : Typed.Function} (h : function id decl s = .ok (f, s')) :
    s'.Regular table ∧ f.body.Regular table := by
  obtain ⟨_, signature, hsymbol, -, hsignature, -⟩ := hdecl
  obtain ⟨hinside, _, _, t, _, hrun, rfl, rfl⟩ :=
    inside_function hs hsymbol hsignature h
  have hregular' : Context.Regular table ⟨s.symbols, s.scopes.push (some id)⟩ :=
    ⟨hregular.extends_table, hregular.types⟩
  obtain ⟨hreturn, hparams⟩ := hregular.signature (List.mem_of_getElem? hsymbol) hsignature
  have hgiven : ∀ param ∈ decl.params.zip signature.paramTypes, param.2.Normal table false := by
    intro param hparam
    obtain ⟨field, hfield, heq⟩ := List.mem_map.mp (List.of_mem_zip hparam).2
    exact heq ▸ hparams field hfield
  obtain ⟨_, hrunParams, hrunBody⟩ := paramsAndBody_eq_ok hrun
  obtain ⟨hinside1, -, -⟩ := params_ensures
    (s := { s with scopes := s.scopes.push (some id) }) hinside
    (fun param hparam => (List.of_mem_zip hparam).2) _ _ hrunParams
  obtain ⟨hregular1, -⟩ := params_regular hgiven
    (s := { s with scopes := s.scopes.push (some id) }) hinside hregular' hrunParams
  obtain ⟨hregular2, hbody⟩ := body_regular decl.body hreturn hinside1 hregular1 hrunBody
  exact ⟨⟨hregular2.extends_table, hregular2.types⟩, hbody⟩

end Typing

/-- The types and functions of an accepted program are regular. -/
theorem accepted_regular {keepGoing : Bool} {trees : List SyntaxTree} {p : Typed.Program}
    (h : (checkProgram keepGoing trees).program = some p) :
    (∀ symbol ∈ p.symbols, symbol.ty.Normal p.symbols false) ∧
      ∀ f, .function f ∈ p.decls → f.body.Regular p.symbols := by
  obtain ⟨_, table, _, _, _, hdeclare, hpopulate, -, -⟩ := checkProgram_eq_some h
  have hall := accepted_forall (P := fun ctx => ctx.Sound ∧ ctx.Regular table)
    (Q := fun symbols f => f.body.Regular symbols) ?_ ?_ h
  · obtain ⟨⟨_, -, hregular⟩, hfunctions⟩ := hall
    exact ⟨fun symbol hmem => (hregular.types symbol hmem).mono hregular.extends_table, hfunctions⟩
  · intro globals symbols hdeclare' hpopulate'
    cases hpopulate.symm.trans hpopulate'
    exact ⟨Declarations.sound_context hdeclare' hpopulate', .refl _,
      Declarations.normal_symbols (Declarations.declare_eq_ok hdeclare).2.1 hpopulate⟩
  · rintro s s' id decl f ⟨hs, hregular⟩ hdecl hrun
    obtain ⟨hs', -, hextends, -⟩ := Typing.function_wellTyped hs hdecl hrun
    obtain ⟨hregular', hbody⟩ := Typing.function_regular hs hregular hdecl hrun
    refine ⟨⟨hs', hregular'⟩, hextends, fun symbols hsymbols e he => ?_⟩
    obtain ⟨hty, hfits⟩ := hbody e he
    exact ⟨hty.mono (hregular'.extends_table.trans hsymbols), hfits⟩

/-- In an accepted program the types of all symbols and of all expressions are in normal form, at
any depth. -/
theorem inNormalForm_of_accepted {keepGoing : Bool} {trees : List SyntaxTree} {p : Typed.Program}
    (h : (checkProgram keepGoing trees).program = some p) :
    (∀ symbol ∈ p.symbols, symbol.ty.InNormalForm p.symbols) ∧
      ∀ f, .function f ∈ p.decls → ∀ e ∈ f.body.exprs, e.ty.InNormalForm p.symbols := by
  obtain ⟨hsymbols, hfunctions⟩ := accepted_regular h
  exact ⟨fun symbol hmem => (hsymbols symbol hmem).inNormalForm,
    fun f hf e he => (hfunctions f hf e he).1.inNormalForm⟩

open Plain in
/-- A list whose nodes hold a leaf and point to the next node:
`enum Tint { Pale, Dark = 4 }`, `struct Leaf { i8[2][3] cells; Tint tint; }`,
`struct Node { Leaf leaf; Node* next; Leaf[] rest; }` and
`i8 f(Node* head) { return (*head.next).leaf.cells[0][1]; }`. -/
def SyntaxTree.grove : SyntaxTree :=
  let next : Expr := target (field (name "head") "next")
  let cells : Expr := field (field next "leaf") "cells"
  { sourceName := "grove"
    decls := [
      enum "Tint" [("Pale", none), ("Dark", some 4)],
      struct "Leaf" [param (array (array (keyword "i8") 2) 3) "cells", param (named "Tint") "tint"],
      struct "Node" [param (named "Leaf") "leaf", param (pointer (named "Node")) "next",
        param (.slice (named "Leaf") .readWrite .nowhere) "rest"],
      function (keyword "i8") "f" [param (pointer (named "Node")) "head"]
        [ret (element (element cells 0) 1)]] }

/-- Whether the type is a struct of the name. -/
def Ty.isStructNamed (name : String) : Ty → Bool
  | .struct found _ _ => found == name
  | _ => false

theorem inNormalForm_of_accepted_grove :
    ∃ p f e, (checkProgram false [.grove]).program = some p ∧ .function f ∈ p.decls ∧
      e ∈ f.body.exprs ∧ e.ty.isStructNamed "Node" = true ∧ e.ty.InNormalForm p.symbols := by
  obtain ⟨p, f, hp, hf, hnode⟩ : ∃ p f, (checkProgram false [.grove]).program = some p ∧
      .function f ∈ p.decls ∧ f.body.exprs.any (·.ty.isStructNamed "Node") = true :=
    exists_function_of_any (by decide +kernel)
  obtain ⟨e, he, hname⟩ := List.any_eq_true.mp hnode
  exact ⟨p, f, e, hp, hf, he, hname, (inNormalForm_of_accepted hp).2 f hf e he⟩

end Laye
