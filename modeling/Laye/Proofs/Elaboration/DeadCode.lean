import Laye.Proofs.Elaboration.Gathering
import Laye.Proofs.Elaboration.Program

/-!
# Dead code is collected where it starts

The statements of a block that follow one which always exits can never run. They are put away in one
dead-code statement at the end of the block, and each such statement is worth one warning.
`Typed.Stmt.Collects` says this of a block and the statements it was written with, and
`accepted_collects` of all blocks of an accepted program, with the warnings in the order of the
text.

Blocks are taken in the order in which they start, those inside dead code included: on the side of
the source by `Stmt.blocks`, on the side of the typed tree among all its statements
(`Typed.Stmt.nodes`).
-/

namespace Laye

/-! ### Blocks -/

namespace Stmt

mutual

/-- The blocks in the statement, each before those inside it. -/
def blocks : Stmt → List (List Stmt)
  | .block stmts _ => stmts :: blocksAll stmts
  | .conditional _ body none _ | .whileLoop _ body none _ => body.blocks
  | .conditional _ body (some elseBody) _ | .whileLoop _ body (some elseBody) _ =>
    body.blocks ++ elseBody.blocks
  | .binding _ _ _ _ | .expression _ | .ret _ _ | .assign _ _ _ | .breakLoop _ | .continueLoop _
  | .yield _ _ => []

def blocksAll : List Stmt → List (List Stmt)
  | [] => []
  | stmt :: rest => stmt.blocks ++ blocksAll rest

end

end Stmt

def FunctionBody.blocks : FunctionBody → List (List Stmt)
  | .block stmts _ => stmts :: Stmt.blocksAll stmts
  | .empty _ | .expression _ => []

namespace Typed

namespace Stmt

/-- The statements of a block. -/
def block? : Stmt → Option (List Stmt)
  | .block stmts _ => some stmts
  | _ => none

/-- The span of dead code. -/
def deadSpan? : Stmt → Option Span
  | .deadCode _ span => some span
  | _ => none

/-- The statements of a block, with those of its dead code in their place. -/
def expanded (block : List Stmt) : List Stmt :=
  block.flatMap fun
    | .deadCode dead _ => dead
    | stmt => [stmt]

end Stmt

/-- The blocks of a body, each before those inside it. -/
def Body.blocks : Body → List (List Stmt)
  | .block stmts _ => stmts :: (Stmt.nodesAll stmts).filterMap Stmt.block?
  | .empty | .expression _ => []

/-- The spans of the dead code in a body, in the order of the text. -/
def Body.deadSpans (body : Body) : List Span := body.stmts.filterMap Stmt.deadSpan?

/-- The spans of all dead code of a program. -/
def Program.deadSpans (p : Program) : List Span :=
  (p.decls.filterMap Decl.function?).flatMap fun f => f.body.deadSpans

end Typed

/-- The typed statement is one that says what the statement says. -/
def Stmt.Becomes (symbols : SymbolTable) (reading : Reading) (stmt : Stmt) (t : Typed.Stmt) :
    Prop :=
  ∃ around, stmt.Elaborates symbols reading around t

/-- The typed block holds the statements that it was written with, and collects those that can never
run. -/
structure Typed.Stmt.Collects (symbols : SymbolTable) (reading : Reading) (written : List Laye.Stmt)
    (block : List Typed.Stmt) : Prop where
  /-- With the dead code in its place, there is one statement for each that was written. -/
  expanded : List.Forall₂ (Stmt.Becomes symbols reading) written (Typed.Stmt.expanded block)
  /-- Dead code comes last. It is what was written after the first statement that always exits, and
  has the span from the first to the last of it. -/
  dead : ∀ before dead span after, block = before ++ .deadCode dead span :: after →
    after = [] ∧ dead ≠ [] ∧
    (∃ live exit, before = live ++ [exit] ∧ exit.alwaysExits = true ∧
      ∀ stmt ∈ live, stmt.alwaysExits = false) ∧
    ∃ first last, (written.drop before.length).head? = some first ∧
      (written.drop before.length).getLast? = some last ∧ span = first.span.combine last.span
  /-- Without dead code, only the last statement may always exit. -/
  live : (∀ stmt ∈ block, stmt.isDead = false) →
    ∀ stmt ∈ block.dropLast, stmt.alwaysExits = false

variable {symbols : SymbolTable} {reading : Reading}

theorem Stmt.Becomes.isDead {stmt : Stmt} {t : Typed.Stmt} (h : stmt.Becomes symbols reading t) :
    t.isDead = false := by
  obtain ⟨_, h⟩ := h
  cases h <;> rfl

theorem Stmt.Becomes.expanded_cons {stmt : Stmt} {t : Typed.Stmt}
    (h : stmt.Becomes symbols reading t) (rest : List Typed.Stmt) :
    Typed.Stmt.expanded (t :: rest) = t :: Typed.Stmt.expanded rest := by
  obtain ⟨_, h⟩ := h
  cases h <;> rfl

namespace Typed.Stmt.Collects

variable {stmt : Laye.Stmt} {t : Typed.Stmt} {written : List Laye.Stmt} {block : List Typed.Stmt}

theorem nil : Collects symbols reading [] [] where
  expanded := .nil
  dead before dead span after h := by simp at h
  live _ _ h := by cases h

theorem cons (hstmt : stmt.Becomes symbols reading t) (hopen : t.alwaysExits = false)
    (h : Collects symbols reading written block) :
    Collects symbols reading (stmt :: written) (t :: block) where
  expanded := by
    rw [hstmt.expanded_cons]
    exact .cons hstmt h.expanded
  dead before dead span after hblock := by
    cases before with
    | nil =>
      cases hblock
      cases hstmt.isDead
    | cons _ before =>
      obtain ⟨rfl, hrest⟩ := List.cons.inj hblock
      -- the dead code is that of the rest, one place further on
      obtain ⟨hafter, hdead, ⟨live, exit, hbefore, hexits, hlive⟩, hspan⟩ :=
        h.dead before dead span after hrest
      refine ⟨hafter, hdead, ⟨t :: live, exit, by rw [hbefore]; rfl, hexits, ?_⟩, hspan⟩
      intro other hother
      rcases List.mem_cons.mp hother with rfl | hother
      · exact hopen
      · exact hlive other hother
  live halive other hother := by
    cases block with
    | nil => cases hother
    | cons _ _ =>
      rcases List.mem_cons.mp hother with rfl | hother
      · exact hopen
      · exact h.live (fun s hs => halive s (List.mem_cons_of_mem _ hs)) other hother

theorem last (hstmt : stmt.Becomes symbols reading t) : Collects symbols reading [stmt] [t] where
  expanded := by
    rw [hstmt.expanded_cons]
    exact .cons hstmt .nil
  dead before dead span after hblock := by
    cases before with
    | nil =>
      cases hblock
      cases hstmt.isDead
    | cons _ _ => simp at hblock
  live _ _ h := by cases h

/-- Statements behind one that always exits are collected into dead code. -/
theorem dead_code {dead : List Typed.Stmt} {span : Span} (hstmt : stmt.Becomes symbols reading t)
    (hexits : t.alwaysExits = true) (hspan : Typing.stretch? written = some span)
    (hdead : List.Forall₂ (Stmt.Becomes symbols reading) written dead) :
    Collects symbols reading (stmt :: written) [t, .deadCode dead span] where
  expanded := by
    rw [hstmt.expanded_cons]
    refine .cons hstmt ?_
    simpa [Typed.Stmt.expanded] using hdead
  dead before dead' span' after hblock := by
    cases before with
    | nil =>
      cases hblock
      cases hstmt.isDead
    | cons first before =>
      cases before with
      | cons _ _ => simp at hblock
      | nil =>
        cases hblock
        cases written with
        | nil => cases hspan
        | cons first rest =>
          cases hspan
          refine ⟨rfl, ?_, ⟨[], t, rfl, hexits, by simp⟩, first, rest.getLast?.getD first, rfl,
            ?_, rfl⟩
          · rintro rfl
            cases hdead
          · simp [List.getLast?_cons]
  live halive := by
    cases halive (.deadCode dead span) (by simp)

end Typed.Stmt.Collects

/-! ### Blocks collect dead code -/

namespace Stmt

open Typed.Stmt (Collects block? nodes nodesAll)

theorem blocks_conditional (condition : Expr) (body : Stmt) (elseBody : Option Stmt) (span : Span) :
    (conditional condition body elseBody span).blocks =
      body.blocks ++ blocksAll elseBody.toList := by
  cases elseBody <;> simp [blocks, blocksAll]

theorem blocks_whileLoop (condition : Expr) (body : Stmt) (elseBody : Option Stmt) (span : Span) :
    (whileLoop condition body elseBody span).blocks = body.blocks ++ blocksAll elseBody.toList := by
  cases elseBody <;> simp [blocks, blocksAll]

end Stmt

namespace Stmt

open Typed.Stmt (Collects block? nodes nodesAll)

mutual

theorem collects_blocks : (stmt : Stmt) → {around : Surroundings} → {t : Typed.Stmt} →
    stmt.Elaborates symbols reading around t →
    List.Forall₂ (Collects symbols reading) stmt.blocks (t.nodes.filterMap block?)
  | .block stmts _, _, _, .block _ hstmts => by
    obtain ⟨hblock, hinside⟩ := collects_block stmts hstmts
    exact .cons hblock hinside
  | .conditional _ body elseBody _, _, _, .conditional _ _ hbody helse
  | .whileLoop _ body elseBody _, _, _, .whileLoop _ _ hbody helse => by
    simp only [blocks_conditional, blocks_whileLoop, Typed.Stmt.nodes_conditional,
      Typed.Stmt.nodes_whileLoop]
    rw [List.filterMap_cons_none rfl, List.filterMap_append]
    exact List.rel_append (collects_blocks body hbody) (collects_blocksElse elseBody helse)
  | .binding _ _ _ _, _, _, .binding _ _ _ _ | .expression _, _, _, .expression _
  | .ret _ _, _, _, .ret _ _ | .assign _ _ _, _, _, .assign _ _ _
  | .breakLoop _, _, _, .breakLoop _ | .continueLoop _, _, _, .continueLoop _
  | .yield _ _, _, _, .yield _ _ => .nil

theorem collects_block : (stmts : List Stmt) → {around : Surroundings} → {ts : List Typed.Stmt} →
    BlockFollows symbols (fun s => Expr.Elaborates symbols (reading s)) around stmts ts →
    Collects symbols reading stmts ts ∧
      List.Forall₂ (Collects symbols reading) (blocksAll stmts) ((nodesAll ts).filterMap block?)
  | [], _, _, .nil => ⟨.nil, .nil⟩
  | stmt :: rest, _, _, .cons hstmt hopen hrest => by
    obtain ⟨hblock, hinside⟩ := collects_block rest hrest
    unfold blocksAll nodesAll
    rw [List.filterMap_append]
    exact ⟨.cons ⟨_, hstmt⟩ hopen hblock, List.rel_append (collects_blocks stmt hstmt) hinside⟩
  | [stmt], _, _, .last hstmt _ => by
    unfold blocksAll nodesAll
    rw [List.filterMap_append]
    exact ⟨.last ⟨_, hstmt⟩, List.rel_append (collects_blocks stmt hstmt) .nil⟩
  | stmt :: rest, _, _, .dead hstmt hexits hspan hrest => by
    obtain ⟨hdead, hinside⟩ := collects_blocksAll rest hrest
    refine ⟨.dead_code ⟨_, hstmt⟩ hexits hspan hdead, ?_⟩
    rw [Typed.Stmt.nodesAll_deadCode, List.filterMap_append, List.filterMap_cons_none rfl]
    exact List.rel_append (collects_blocks stmt hstmt) hinside

theorem collects_blocksAll : (stmts : List Stmt) → {around : Surroundings} →
    {ts : List Typed.Stmt} →
    AllFollow symbols (fun s => Expr.Elaborates symbols (reading s)) around stmts ts →
    List.Forall₂ (Stmt.Becomes symbols reading) stmts ts ∧
      List.Forall₂ (Collects symbols reading) (blocksAll stmts) ((nodesAll ts).filterMap block?)
  | [], _, _, .nil => ⟨.nil, .nil⟩
  | stmt :: rest, _, _, .cons hstmt hrest => by
    obtain ⟨hall, hinside⟩ := collects_blocksAll rest hrest
    unfold blocksAll nodesAll
    rw [List.filterMap_append]
    exact ⟨.cons ⟨_, hstmt⟩ hall, List.rel_append (collects_blocks stmt hstmt) hinside⟩

theorem collects_blocksElse : (stmt : Option Stmt) → {around : Surroundings} →
    {t : Option Typed.Stmt} →
    ElseFollows symbols (fun s => Expr.Elaborates symbols (reading s)) around stmt t →
    List.Forall₂ (Collects symbols reading) (blocksAll stmt.toList)
      ((nodesAll t.toList).filterMap block?)
  | none, _, _, .none => .nil
  | some stmt, _, _, .some hstmt => by
    unfold Option.toList blocksAll nodesAll blocksAll nodesAll
    rw [List.append_nil, List.append_nil]
    exact collects_blocks stmt hstmt

end

end Stmt

/-! ### Warnings -/

theorem gathers_deadSpans : Check.Gathers (fun t => t.deadSpan?.toList)
    fun st st' spans => st'.unreachable = st.unreachable ++ spans where
  plain t ht := by
    cases t with
    | deadCode => cases ht
    | _ => rfl
  refl st := (List.append_nil _).symm
  append h h' := by rw [h', h, List.append_assoc]
  inScope h := h
  declare _ _ h := by
    simp only [Check.declare] at h
    split at h
    · cases h
      exact (List.append_nil _).symm
    · cases h
  warn _ _ _ := rfl

namespace Typing

theorem decl_deadSpans {id : SymbolId} {top : TopLevel} {st st' : Progress} {d : Typed.Decl}
    (h : decl id top st = .ok (d, st')) :
    st'.unreachable = st.unreachable ++ d.function?.toList.flatMap fun f => f.body.deadSpans := by
  have hnoted := gathers_deadSpans.decl h
  cases d with
  | struct | enum => exact hnoted
  | function f =>
    -- parameters are no dead code
    have hparams : (f.params.flatMap fun id =>
        (Typed.Stmt.deadSpan? (.binding id none .nowhere)).toList) = [] :=
      List.flatMap_eq_nil_iff.mpr fun _ _ => rfl
    simp only [Typed.Decl.function?, Option.toList_some, List.flatMap_singleton] at hnoted ⊢
    rw [hparams, List.nil_append, ← List.filterMap_eq_flatMap_toList] at hnoted
    exact hnoted

/-- The warnings of a unit are those of its functions, in their order. -/
theorem decls_deadSpans {keepGoing : Bool} {rest : List TopLevel} {id : SymbolId}
    {ctx ctx' : Context} {findings : List Finding} {checked : List Typed.Decl}
    (h : decls keepGoing id ctx rest = (findings, some (checked, ctx'))) :
    findings = ((checked.filterMap Typed.Decl.function?).flatMap
      fun f => f.body.deadSpans).map .unreachable := by
  induction rest generalizing id ctx findings checked with
  | nil =>
    cases h
    rfl
  | cons _ _ ih =>
    obtain ⟨d, _, _, _, hdecl, hchecked, rfl, rfl⟩ := decls_cons_eq_some h
    have hfirst := decl_deadSpans hdecl
    rw [hfirst, ih hchecked]
    cases hf : d.function? with
    | none | some f => simp [hf]

end Typing

/-! ### Programs -/

/-- The typed function holds the blocks of the declared one, with their dead code collected. -/
def TopLevel.Collects (symbols : SymbolTable) (reading : Reading) : TopLevel → Typed.Decl → Prop
  | .function decl, .function f =>
    List.Forall₂ (Typed.Stmt.Collects symbols reading) decl.body.blocks f.body.blocks
  | .struct _, .struct _ _ | .enum _, .enum _ _ => True
  | _, _ => False

theorem FunctionBody.Elaborates.collects {around : Surroundings} {b : FunctionBody}
    {t : Typed.Body} (h : b.Elaborates symbols reading around t) :
    List.Forall₂ (Typed.Stmt.Collects symbols reading) b.blocks t.blocks := by
  cases b with
  | empty _ =>
    cases t with
    | empty => exact .nil
    | _ => cases h
  | expression _ =>
    cases t with
    | expression _ => exact .nil
    | _ => cases h
  | block stmts _ =>
    cases t with
    | block _ _ =>
      obtain ⟨hblock, hinside⟩ := Stmt.collects_block stmts h.2
      exact .cons hblock hinside
    | _ => cases h

theorem TopLevel.Elaborates.collects {top : TopLevel} {d : Typed.Decl}
    (h : top.Elaborates symbols reading d) : top.Collects symbols reading d := by
  cases top <;> cases d
  case function.function decl f => exact FunctionBody.Elaborates.collects h.body
  all_goals trivial

theorem Typed.Program.Elaborates.collects {p : Typed.Program} {trees : List SyntaxTree}
    (h : p.Elaborates reading trees) :
    List.Forall₂ (TopLevel.Collects p.symbols reading) (Declarations.ofTrees trees) p.decls := by
  unfold Typed.Program.Elaborates at h
  unfold Declarations.ofTrees Typed.Program.decls
  generalize p.roots = roots at h ⊢
  induction h with
  | nil => exact .nil
  | cons hroot _ ih =>
    exact List.rel_append (hroot.decls.imp fun _ _ => TopLevel.Elaborates.collects) ih

/-- In every block of an accepted program, what can never run is collected in one dead-code
statement at the end, and the check reports one warning for each of these, at its span and in the
order of the text, and nothing else. -/
theorem accepted_collects {keepGoing : Bool} {trees : List SyntaxTree} {p : Typed.Program}
    (h : (checkProgram keepGoing trees).program = some p) :
    List.Forall₂ (TopLevel.Collects p.symbols (.byName p.symbols)) (Declarations.ofTrees trees)
      p.decls ∧
    (checkProgram keepGoing trees).findings.map Finding.toDiagnostic =
      p.deadSpans.map fun span => ⟨.warning, span, "unreachable code detected"⟩ := by
  refine ⟨Typed.Program.Elaborates.collects
    (accepted_elaborates_of_allows h fun _ _ => Reading.byName_allows _ _), ?_⟩
  obtain ⟨globals, symbols, findings, decls, ctx, hdeclare, hpopulate, hchecked, rfl⟩ :=
    checkProgram_eq_some h
  have hfindings : (checkProgram keepGoing trees).findings = findings := by
    simp only [checkProgram, hdeclare, hpopulate, hchecked]
  have hdecls := Typing.flatMap_roots (Typing.decls_checksTo hchecked).1
  rw [hfindings, Typing.decls_deadSpans hchecked, Typed.Program.deadSpans, Typed.Program.decls,
    hdecls, List.map_map]
  rfl

/-- The file `void f() { { return; return; return; } return; { return; return; } }`, with the
statements at the offsets 1 to 8. -/
def SyntaxTree.spent : SyntaxTree :=
  let place (offset : Nat) : Span := .point ⟨"spent", offset, 1, offset + 1⟩
  let ret (offset : Nat) : Stmt := .ret none (place offset)
  let body : List Stmt := [
    .block [ret 2, ret 3, ret 4] (place 1), ret 5, .block [ret 7, ret 8] (place 6)]
  { sourceName := "spent"
    decls := [Plain.function (Plain.keyword "void") "f" [] body] }

theorem accepted_collects_spent :
    let place (offset : Nat) : Location := ⟨"spent", offset, 1, offset + 1⟩
    ∃ p, (checkProgram false [.spent]).program = some p ∧
      List.Forall₂ (TopLevel.Collects p.symbols (.byName p.symbols)) SyntaxTree.spent.decls
        p.decls ∧
      (checkProgram false [.spent]).findings.map Finding.toDiagnostic = [
        ⟨.warning, ⟨place 3, place 4⟩, "unreachable code detected"⟩,
        ⟨.warning, ⟨place 5, place 6⟩, "unreachable code detected"⟩,
        ⟨.warning, ⟨place 8, place 8⟩, "unreachable code detected"⟩] := by
  intro place
  have hspans : (checkProgram false [.spent]).program.map Typed.Program.deadSpans =
      some [⟨place 3, place 4⟩, ⟨place 5, place 6⟩, ⟨place 8, place 8⟩] := by
    decide +kernel
  obtain ⟨p, hp, hdead⟩ := Option.map_eq_some_iff.mp hspans
  obtain ⟨hcollects, hfindings⟩ := accepted_collects hp
  rw [hdead] at hfindings
  exact ⟨p, hp, hcollects, hfindings⟩

end Laye
