import Laye.Proofs.Arrangement.Unit
import Laye.Proofs.Elaboration.Statement

/-!
# Accepted programs say what their files say

A function starts with its parameters (`Typing.params_fits`), and its body is checked among them
(`Typing.function_follows`). The declarations of a unit are checked one after another, each where
it stands (`Typing.decls_forall₂`), and are then divided among the files they come from. So an
accepted program says what the files say, for any reading that allows what the checker finds in the
unit (`accepted_elaborates_of_allows`); `accepted_elaborates` is this for symbols of the same name.
-/

namespace Laye

open Declarations (Starts ofTrees)

namespace Typing

variable {signature : Signature} {globals : Scope} {s : Surroundings} {st st' : Progress}
  {symbols : SymbolTable} {reading : Reading} {R : Surroundings → Expr → Typed.Expr → Prop}

/-! ### One function -/

theorem params_fits {given : List (Param × Ty)} {ids : List SymbolId}
    (h : params given st = .ok (ids, st'))
    (hgiven : ∀ param ∈ given, param.2 ∈ signature.paramTypes) (hblocks : s.blocks = [])
    (hs : s.Fits signature globals st.toContext) :
    Surroundings.Fits signature globals
        ⟨[], ((given.map fun param => param.1.name.name).zip ids).reverse ++ s.params⟩
        st'.toContext ∧
      ∀ symbols, st'.symbols.Extends symbols →
        List.Forall₂ (fun param id => symbols.IsVariableOf param.1.name id) given ids := by
  induction given generalizing s st ids with
  | nil =>
    cases h
    obtain ⟨_, _⟩ := s
    cases hblocks
    exact ⟨hs, fun _ _ => .nil⟩
  | cons param rest ih =>
    obtain ⟨param, ty⟩ := param
    obtain ⟨_, hfield, rfl⟩ := List.mem_map.mp (hgiven (param, ty) (by simp))
    have hgrounded := (Signature.grounded_iff.mp hs.inside.signature_grounded).2.of_mem hfield
    obtain ⟨id, _, hdeclare, h⟩ := Check.bind_eq_ok.mp h
    obtain ⟨_, _, hrest, h⟩ := Check.bind_eq_ok.mp h
    cases h
    obtain ⟨hs1, ty, hvariable⟩ := Check.declare_fits hs hgrounded hdeclare
    -- a function declares its parameters outside of all blocks
    have hdeclared : s.declare param.name.name id = ⟨[], (param.name.name, id) :: s.params⟩ := by
      simp only [Surroundings.declare, hblocks]
    rw [hdeclared] at hs1
    have hgiven' : ∀ param ∈ rest, param.2 ∈ signature.paramTypes :=
      fun param hparam => hgiven param (by simp [hparam])
    obtain ⟨hfits, hvariables⟩ := ih hrest hgiven' rfl hs1
    obtain ⟨-, hgrows, -⟩ := params_ensures hs1.inside hgiven' _ _ hrest
    refine ⟨by simpa using hfits, fun symbols hsymbols => .cons ⟨ty, ?_⟩ (hvariables _ hsymbols)⟩
    exact (hgrows.symbols.trans hsymbols).getElem? hvariable

theorem body_follows (hR : RulesInside globals symbols R) {b : FunctionBody} {t : Typed.Body}
    (hs : s.Fits signature globals st.toContext)
    (h : body signature.returnType b st = .ok (t, st')) (hsymbols : st'.symbols.Extends symbols) :
    b.Follows symbols R s t := by
  cases b with
  | empty _ =>
    cases h
    trivial
  | block stmts _ =>
    obtain ⟨_, _, hscope, h⟩ := Check.bind_eq_ok.mp h
    cases h
    obtain ⟨-, -, _, _, hstart, hrun, hinner⟩ :=
      Check.inScope_fits (fun _ => Stmt.checkBlock_wellTyped false stmts) hs hscope
    exact ⟨rfl, Stmt.checkBlock_follows hR false stmts hstart hrun (hinner ▸ hsymbols)⟩
  | expression _ =>
    obtain ⟨_, hvalue, h⟩ := Check.attempt_bind_eq_ok h
    cases h
    exact ((hR hs hsymbols).of_exprAt trivial hvalue).1

/-- What checking makes of a function has its name, its spans and its parameters, and a body that
follows that of the function. -/
theorem function_follows {id : SymbolId} {decl : FunctionDecl} {f : Typed.Function}
    (h : function id decl st = .ok (f, st')) (hs : st.Sound) (htop : st.scopes.inner = [])
    (hdecl : IsFunction st.symbols id decl) (hsymbols : st'.symbols.Extends symbols) :
    symbols.IsFunctionOf decl.name.name f.symbol ∧ f.name = decl.name.name ∧
      f.nameSpan = decl.name.span ∧ f.span = decl.span ∧
      List.Forall₂ (fun param id => symbols.IsVariableOf param.name id) decl.params f.params ∧
      ∀ {R : Surroundings → Expr → Typed.Expr → Prop}, RulesInside st.scopes.globals symbols R →
        decl.body.Follows symbols R (.ofParams decl.params f.params) f.body := by
  obtain ⟨-, -, hextends, -⟩ := function_wellTyped hs hdecl h
  obtain ⟨symbol, signature, hsymbol, hname, hsignature, hcount⟩ := hdecl
  obtain ⟨_, _, _, t, _, hfound, hrun, rfl, rfl⟩ := function_eq_ok h
  rw [Context.symbolAt, SymbolTable.symbolAt_eq hsymbol, hsignature] at hfound
  cases hfound
  -- the scope of the function is the only one above the global scope, and has no name yet
  have hstart : Surroundings.Fits signature st.scopes.globals ⟨[], []⟩
      ⟨st.symbols, st.scopes.push (some id)⟩ :=
    ⟨⟨hs.push _, by simp [ScopeStack.push], id, symbol, rfl, hsymbol, hsignature⟩,
      by simp [ScopeStack.push, htop, Scope.empty], rfl⟩
  have hgiven : ∀ param ∈ decl.params.zip signature.paramTypes,
      param.2 ∈ signature.paramTypes := fun param hparam => (List.of_mem_zip hparam).2
  obtain ⟨_, hparams, hbody⟩ := paramsAndBody_eq_ok hrun
  obtain ⟨hs1, hvariables⟩ := params_fits hparams hgiven rfl hstart
  obtain ⟨-, hgrows, -⟩ := body_ensures hs1.inside decl.body _ _ hbody
  -- each parameter is checked with the type that the signature has at its place
  have hfst : (decl.params.zip signature.paramTypes).map Prod.fst = decl.params :=
    List.map_fst_zip (by simp [Signature.paramTypes, hcount])
  have hnames : ((decl.params.zip signature.paramTypes).map fun param => param.1.name.name) =
      decl.params.map fun param => param.name.name := by
    rw [← hfst, List.map_map]
    simp [hfst]
  rw [hnames, List.append_nil] at hs1
  refine ⟨⟨symbol, hsymbols.getElem? (hextends.getElem? hsymbol), hname, ?_⟩, rfl, rfl, rfl, ?_,
    fun hR => body_follows hR hs1 hbody hsymbols⟩
  · exact Symbol.kind_of_signature? hsignature
  · rw [← hfst]
    exact List.forall₂_map_left_iff.mpr (hvariables symbols (hgrows.symbols.trans hsymbols))

/-! ### All declarations -/

variable {tops : List TopLevel} {start ctx ctx' : Context}

/-- What the check of each declaration ensures at its place, it ensures of all of them, whatever
variables come after. -/
theorem decls_forall₂ {Q : SymbolTable → TopLevel → Typed.Decl → Prop} (hstarts : Starts tops start)
    (hstep : ∀ {ctx : Context} {id : SymbolId} {top : TopLevel} {d : Typed.Decl} {st : Progress},
      start.Reaches ctx → tops[id]? = some top → decl id top ⟨ctx, []⟩ = .ok (d, st) →
        ∀ symbols, st.symbols.Extends symbols → Q symbols top d)
    {keepGoing : Bool} {rest : List TopLevel} {id : SymbolId} {findings : List Finding}
    {checked : List Typed.Decl} (hctx : start.Reaches ctx) (hrest : tops.drop id = rest)
    (h : decls keepGoing id ctx rest = (findings, some (checked, ctx'))) :
    start.Reaches ctx' ∧ ctx.symbols.Extends ctx'.symbols ∧
      List.Forall₂ (Q ctx'.symbols) rest checked := by
  induction rest generalizing id ctx findings checked with
  | nil =>
    cases h
    exact ⟨hctx, .refl _, .nil⟩
  | cons _ _ ih =>
    obtain ⟨hfirst, hrest'⟩ := Declarations.place_of_drop hrest
    obtain ⟨_, _, _, _, hdecl, hchecked, -, rfl⟩ := decls_cons_eq_some h
    obtain ⟨hafter, hextends, -⟩ := hctx.decl hstarts hfirst hdecl
    obtain ⟨hreaches, hextends', hall⟩ := ih hafter hrest' hchecked
    exact ⟨hreaches, hextends.trans hextends', .cons (hstep hctx hfirst hdecl _ hextends') hall⟩

theorem decl_function (hstarts : Starts tops start) (hctx : start.Reaches ctx) {id : SymbolId}
    {decl : FunctionDecl} {d : Typed.Decl} (htop : tops[id]? = some (.function decl))
    (h : Typing.decl id (.function decl) ⟨ctx, []⟩ = .ok (d, st)) :
    ∃ f, d = .function f ∧ function id decl ⟨ctx, []⟩ = .ok (f, st) ∧ ctx.scopes.inner = [] ∧
      IsFunction ctx.symbols id decl := by
  obtain ⟨f, _, hf, h⟩ := Check.bind_eq_ok.mp h
  cases h
  refine ⟨f, rfl, hf, by rw [hctx.scopes_eq, (Declarations.declare_eq_ok hstarts.declare).1], ?_⟩
  exact (Declarations.isFunction_of_populate hstarts.populate id decl htop).mono hctx.symbols

theorem decl_elaborates (hstarts : Starts tops start) (hctx : start.Reaches ctx) {id : SymbolId}
    {top : TopLevel} {d : Typed.Decl} (htop : tops[id]? = some top)
    (h : decl id top ⟨ctx, []⟩ = .ok (d, st)) (hsymbols : st.symbols.Extends symbols)
    (hreading : reading.Allows start.scopes.globals symbols) :
    top.Elaborates symbols reading d := by
  obtain ⟨symbol, hsymbol, his⟩ := Declarations.symbol_of_decl hstarts.populate htop
  obtain ⟨-, hextends, -⟩ := hctx.decl hstarts htop h
  have hnamed : symbols.Named top.name.name id :=
    ⟨symbol, (hextends.trans hsymbols).getElem? (hctx.symbols.getElem? hsymbol), his.name_eq⟩
  cases top with
  | struct _ | enum _ =>
    cases h
    exact ⟨hnamed, rfl⟩
  | function _ =>
    obtain ⟨f, rfl, hf, hinner, hfunction⟩ := decl_function hstarts hctx htop h
    obtain ⟨hcallee, hname, hnameSpan, hspan, hparams, hbody⟩ :=
      function_follows hf hctx.sound hinner hfunction hsymbols
    rw [← hctx.scopes_eq] at hreading
    exact ⟨hcallee, hname, hnameSpan, hspan, hparams, hbody hreading.rulesInside⟩

theorem roots_elaborate {trees : List SyntaxTree} {checked : List Typed.Decl}
    (h : List.Forall₂ (TopLevel.Elaborates symbols reading) (ofTrees trees) checked) :
    List.Forall₂ (SyntaxTree.Elaborates symbols reading) trees (roots trees checked) := by
  induction trees generalizing checked with
  | nil => exact .nil
  | cons tree _ ih =>
    have hfirst := List.forall₂_take tree.decls.length h
    have hrest := List.forall₂_drop tree.decls.length h
    simp only [ofTrees, List.flatMap_cons, List.take_left, List.drop_left]
      at hfirst hrest
    exact .cons ⟨rfl, hfirst⟩ (ih hrest)

end Typing

/-! ### Programs -/

/-- An accepted program says what its files say, for a reading that allows what the checker finds in
the unit. -/
theorem accepted_elaborates_of_allows {keepGoing : Bool} {trees : List SyntaxTree}
    {p : Typed.Program} {reading : Reading} (h : (checkProgram keepGoing trees).program = some p)
    (hreading : ∀ scopes, Declarations.declare (ofTrees trees) = .ok scopes →
      reading.Allows scopes.globals p.symbols) : p.Elaborates reading trees := by
  obtain ⟨globals, symbols, _, _, _, hdeclare, hpopulate, hchecked, rfl⟩ :=
    checkProgram_eq_some h
  have hstarts : Starts (ofTrees trees) ⟨symbols, globals⟩ := ⟨hdeclare, hpopulate⟩
  have hsound := Declarations.sound_context hdeclare hpopulate
  obtain ⟨-, -, hall⟩ := Typing.decls_forall₂
    (Q := fun symbols top d => reading.Allows globals.globals symbols →
      top.Elaborates symbols reading d) hstarts
    (fun hctx htop hdecl _ hsymbols => Typing.decl_elaborates hstarts hctx htop hdecl hsymbols)
    ⟨rfl, .refl _, hsound⟩ List.drop_zero hchecked
  exact Typing.roots_elaborate (hall.imp fun _ _ helaborates => helaborates (hreading _ hdeclare))

theorem Reading.byName_allows (globals : Scope) (symbols : SymbolTable) :
    (Reading.byName symbols).Allows globals symbols := by
  intro signature s ctx hs hsymbols name id hid
  exact hsymbols.named (hs.inside.sound.lookup hid)

open Plain in
/-- A file with an enum, a struct and a function over them:
`enum Mode { off, dim, full = 7 }`, `struct Lamp { int level; }` and
`int set(Lamp* lamp, int level) { int old = -1; { int level = old; lamp.level = level; }
float share = 3; Mode mode = Mode::dim; return level; level = old; }`. -/
def SyntaxTree.lamp : SyntaxTree :=
  { sourceName := "lamp"
    decls := [
      enum "Mode" [("off", none), ("dim", none), ("full", some 7)],
      struct "Lamp" [param (keyword "int") "level"],
      function (keyword "int") "set"
        [param (pointer (named "Lamp")) "lamp", param (keyword "int") "level"] [
        binding (keyword "int") "old" (.unary .neg (number 1) .nowhere),
        .block [binding (keyword "int") "level" (name "old"),
          assign (field (name "lamp") "level") (name "level")] .nowhere,
        binding (keyword "float") "share" (number 3),
        binding (named "Mode") "mode" (field (name "Mode") "dim"),
        ret (name "level"),
        assign (name "level") (name "old")]] }

/-- Every accepted program is an elaboration of its files: the same declarations, statements and
expressions, in the same order and with the same spans. -/
theorem accepted_elaborates {keepGoing : Bool} {trees : List SyntaxTree} {p : Typed.Program}
    (h : (checkProgram keepGoing trees).program = some p) :
    p.Elaborates (.byName p.symbols) trees :=
  accepted_elaborates_of_allows h fun _ _ => Reading.byName_allows _ _

theorem accepted_elaborates_lamp :
    ∃ p, (checkProgram false [.lamp]).program = some p ∧
      p.Elaborates (.byName p.symbols) [.lamp] := by
  have haccepted : (checkProgram false [.lamp]).program.isSome = true := by decide +kernel
  obtain ⟨p, hp⟩ := Option.isSome_iff_exists.mp haccepted
  exact ⟨p, hp, accepted_elaborates hp⟩

end Laye
