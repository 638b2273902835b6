import Laye.Proofs.Typing.Statement
import Laye.Syntax.Plain

/-!
# Accepted programs are well typed

The functions of a unit are checked one after another, each in the global scope and with the
variables of those before it among the symbols. `Typing.function_wellTyped` is about one of them,
and `accepted_forall` carries what the check of one ensures over to all. `checkProgram_wellTyped`
puts them together: if a program comes out of the checker, all its functions are well typed over its
symbols. -/

namespace Laye

open Declarations (ofTrees)

namespace Typing

open Check (Ensures)

variable {signature : Signature}

/-! ### One function -/

variable {s s' : Progress} {decl : FunctionDecl} {id : SymbolId} {f : Typed.Function}
  {signature : Signature} {ctx ctx' : Context} {rest : List TopLevel} {findings : List Finding}
  {checked : List Typed.Decl}

theorem params_ensures (hs : s.Inside signature) {given : List (Param × Ty)}
    (hgiven : ∀ param ∈ given, param.2 ∈ signature.paramTypes) :
    Ensures signature s (params given) fun symbols ids =>
      List.Forall₂ (Typed.IsVariable symbols) ids (given.map Prod.snd) := by
  induction given generalizing s with
  | nil => exact .pure hs fun _ _ => .nil
  | cons param _ ih =>
    obtain ⟨param, ty⟩ := param
    obtain ⟨_, hfield, rfl⟩ := List.mem_map.mp (hgiven (param, ty) (by simp))
    have hgrounded := (Signature.grounded_iff.mp hs.signature_grounded).2.of_mem hfield
    refine .bind (.declare hs hgrounded) ?_
    intro id s' hs' _
    refine .bind (ih hs' fun param hparam => hgiven param (by simp [hparam])) ?_
    intro ids s'' hs'' _
    exact .pure hs'' fun symbols _ hrest hfirst => .cons hfirst hrest

theorem body_ensures (hs : s.Inside signature) (b : FunctionBody) :
    Ensures signature s (body signature.returnType b) fun symbols t =>
      t.WellTyped symbols signature.returnType := by
  cases b with
  | empty _ => exact .pure hs fun _ _ => trivial
  | block stmts _ =>
    refine .bind (.inScope hs fun s' hs' => Stmt.checkBlock_wellTyped false stmts hs') ?_
    intro stmts' s' hs' _
    exact .pure hs' fun symbols _ hstmts => hstmts
  | expression _ =>
    refine .attempt (P := fun symbols e => e.WellTyped symbols ∧ e.ty = signature.returnType) ?_ ?_
    · intro e h symbols hsymbols
      obtain ⟨hwell, hty⟩ := exprAt_wellTyped hs.sound h
        (Signature.grounded_iff.mp hs.signature_grounded).1
      exact ⟨hwell.mono hsymbols, hty⟩
    · intro e _
      exact .pure hs fun symbols _ he => he

theorem paramsAndBody_ensures (hs : s.Inside signature)
    (hcount : signature.params.length = decl.params.length) :
    Ensures signature s (paramsAndBody decl signature) fun symbols parts =>
      List.Forall₂ (Typed.IsVariable symbols) parts.1 signature.paramTypes ∧
        parts.2.WellTyped symbols signature.returnType := by
  have htys : (decl.params.zip signature.paramTypes).map Prod.snd = signature.paramTypes :=
    List.map_snd_zip (by simp [Signature.paramTypes, hcount])
  have hgiven : ∀ param ∈ decl.params.zip signature.paramTypes,
      param.2 ∈ signature.paramTypes := fun param hparam => (List.of_mem_zip hparam).2
  refine .bind (params_ensures hs hgiven) ?_
  intro ids s' hs' _
  refine .bind (body_ensures hs' decl.body) ?_
  intro body s'' hs'' _
  exact .pure hs'' fun symbols _ hbody hparams => ⟨htys ▸ hparams, hbody⟩

/-- The symbol at a place is that of a function. -/
def IsFunction (symbols : SymbolTable) (id : SymbolId) (decl : FunctionDecl) : Prop :=
  ∃ symbol signature, symbols[id]? = some symbol ∧ symbol.name = decl.name.name ∧
    symbol.signature? = some signature ∧ signature.params.length = decl.params.length

theorem function_eq_ok (h : function id decl s = .ok (f, s')) :
    ∃ signature library ids t inner, (s.symbolAt id).signature? = some signature ∧
      paramsAndBody decl signature { s with scopes := s.scopes.push (some id) } =
        .ok ((ids, t), inner) ∧
      f = ⟨id, decl.name.name, decl.name.span, ids, library, t, decl.span⟩ ∧
      s' = { inner with scopes := inner.scopes.pop } := by
  obtain ⟨library, _, hlibrary, h⟩ := Check.bind_eq_ok.mp h
  obtain ⟨-, rfl⟩ := Check.attempt_eq_ok hlibrary
  obtain ⟨_, _, hcontext, h⟩ := Check.bind_eq_ok.mp h
  cases hcontext
  cases hsignature : (s.symbolAt id).signature? with
  | none =>
    rw [hsignature] at h
    cases h
  | some signature =>
    rw [hsignature] at h
    obtain ⟨⟨ids, t⟩, _, hscope, h⟩ := Check.bind_eq_ok.mp h
    cases h
    obtain ⟨inner, hrun, rfl⟩ := Check.inScope_eq_ok hscope
    exact ⟨signature, library, ids, t, inner, rfl, hrun, rfl, rfl⟩

theorem paramsAndBody_eq_ok {ids : List SymbolId} {t : Typed.Body}
    (h : paramsAndBody decl signature s = .ok ((ids, t), s')) :
    ∃ s1, params (decl.params.zip signature.paramTypes) s = .ok (ids, s1) ∧
      body signature.returnType decl.body s1 = .ok (t, s') := by
  obtain ⟨_, s1, hparams, h⟩ := Check.bind_eq_ok.mp h
  obtain ⟨t, _, hbody, h⟩ := Check.bind_eq_ok.mp h
  cases h
  exact ⟨s1, hparams, hbody⟩

theorem inside_function (hs : s.Sound) {symbol : Symbol} (hsymbol : s.symbols[id]? = some symbol)
    (hsignature : symbol.signature? = some signature) (h : function id decl s = .ok (f, s')) :
    Context.Inside signature ⟨s.symbols, s.scopes.push (some id)⟩ ∧
      ∃ library ids t inner,
        paramsAndBody decl signature { s with scopes := s.scopes.push (some id) } =
          .ok ((ids, t), inner) ∧
        f = ⟨id, decl.name.name, decl.name.span, ids, library, t, decl.span⟩ ∧
        s' = { inner with scopes := inner.scopes.pop } := by
  obtain ⟨_, library, ids, t, inner, hfound, hrest⟩ := function_eq_ok h
  rw [Context.symbolAt, SymbolTable.symbolAt_eq hsymbol, hsignature] at hfound
  cases hfound
  exact ⟨⟨hs.push _, by simp [ScopeStack.push], id, symbol, rfl, hsymbol, hsignature⟩, library, ids,
    t, inner, hrest⟩

/-- A checked function is well typed, and leaves nothing but its variables behind. -/
theorem function_wellTyped (hs : s.Sound) (hdecl : IsFunction s.symbols id decl)
    (h : function id decl s = .ok (f, s')) :
    s'.Sound ∧ s'.scopes = s.scopes ∧ s.symbols.Extends s'.symbols ∧
      ∃ signature, ∀ symbols, s'.symbols.Extends symbols → f.WellTyped symbols signature := by
  obtain ⟨symbol, signature, hsymbol, hname, hsignature, hcount⟩ := hdecl
  obtain ⟨hinside, _, _, t, inner, hrun, rfl, rfl⟩ :=
    inside_function hs hsymbol hsignature h
  obtain ⟨hinside', hgrows, hparts⟩ := paramsAndBody_ensures hinside hcount _ _ hrun
  have hscopes : inner.scopes.pop = s.scopes := hgrows.pop_push
  refine ⟨?_, hscopes, hgrows.symbols, signature, fun symbols hsymbols => ?_⟩
  · simp only [hscopes]
    exact hs.extend hgrows.symbols hinside'.sound.grounded
  · obtain ⟨hparams, hbody⟩ := hparts symbols hsymbols
    exact ⟨⟨symbol, hsymbols.getElem? (hgrows.symbols.getElem? hsymbol), hname, hsignature⟩,
      hparams, hbody⟩

/-! ### All of them -/

theorem IsFunction.mono {symbols symbols' : SymbolTable} (h : IsFunction symbols id decl)
    (hsymbols : symbols.Extends symbols') : IsFunction symbols' id decl := by
  obtain ⟨symbol, signature, hsymbol, hrest⟩ := h
  exact ⟨symbol, signature, hsymbols.getElem? hsymbol, hrest⟩

theorem decls_cons_eq_some {keepGoing : Bool} {first : TopLevel}
    (h : decls keepGoing id ctx (first :: rest) = (findings, some (checked, ctx'))) :
    ∃ d after findings' checked', Typing.decl id first ⟨ctx, []⟩ = .ok (d, after) ∧
      decls keepGoing (id + 1) after.toContext rest = (findings', some (checked', ctx')) ∧
      findings = after.unreachable.map .unreachable ++ findings' ∧ checked = d :: checked' := by
  unfold decls at h
  split at h
  · cases h
  · rename_i d after hdecl
    cases hchecked : decls keepGoing (id + 1) after.toContext rest with
    | mk findings' result =>
      rw [hchecked] at h
      cases result with
      | none => cases h
      | some _ =>
        cases h
        exact ⟨d, after, findings', _, hdecl, hchecked, rfl, rfl⟩

/-- What the check of a function ensures, it ensures of all functions among checked declarations,
whatever variables come after them. `P` is what the check keeps true of its context. -/
theorem decls_forall {P : Context → Prop} {Q : SymbolTable → Typed.Function → Prop}
    (hstep : ∀ {s s' : Progress} {id : SymbolId} {decl : FunctionDecl} {f : Typed.Function},
      P s.toContext → IsFunction s.symbols id decl → function id decl s = .ok (f, s') →
        P s'.toContext ∧ s.symbols.Extends s'.symbols ∧
          ∀ symbols, s'.symbols.Extends symbols → Q symbols f)
    {keepGoing : Bool} (hctx : P ctx) (hrest : ∀ (i : Nat) decl, rest[i]? = some (.function decl) →
      IsFunction ctx.symbols (id + i) decl)
    (h : decls keepGoing id ctx rest = (findings, some (checked, ctx'))) :
    ctx.symbols.Extends ctx'.symbols ∧ P ctx' ∧ ∀ f, .function f ∈ checked →
      ∀ symbols, ctx'.symbols.Extends symbols → Q symbols f := by
  have hdecl : ∀ {s s' : Progress} {id : SymbolId} {first : TopLevel} {first' : Typed.Decl},
      P s.toContext → (∀ decl, first = .function decl → IsFunction s.symbols id decl) →
      decl id first s = .ok (first', s') → P s'.toContext ∧ s.symbols.Extends s'.symbols ∧
        ∀ f, first' = .function f → ∀ symbols, s'.symbols.Extends symbols → Q symbols f := by
    intro s s' id first first' hs hfirst h
    cases first with
    | struct _ | enum _ =>
      cases h
      exact ⟨hs, .refl _, fun _ hf => by cases hf⟩
    | function decl =>
      obtain ⟨f, _, hf, h⟩ := Check.bind_eq_ok.mp h
      cases h
      obtain ⟨hP, hextends, hQ⟩ := hstep hs (hfirst decl rfl) hf
      refine ⟨hP, hextends, ?_⟩
      rintro _ ⟨⟩
      exact hQ
  induction rest generalizing id ctx findings checked with
  | nil =>
    cases h
    exact ⟨.refl _, hctx, by simp⟩
  | cons _ rest ih =>
    obtain ⟨_, after, _, _, hfirst, hchecked, -, rfl⟩ := decls_cons_eq_some h
    obtain ⟨hafter, hextends, hQ⟩ := hdecl (s := ⟨ctx, []⟩) hctx
      (fun decl hdecl => hrest 0 decl (by simp [hdecl])) hfirst
    have hrest' : ∀ (i : Nat) decl, rest[i]? = some (.function decl) →
        IsFunction after.symbols (id + 1 + i) decl := by
      intro i decl hdecl
      have hfunction := (hrest (i + 1) decl (by simpa using hdecl)).mono hextends
      rwa [Nat.add_assoc, Nat.add_comm 1 i]
    obtain ⟨hextends', hP, hQ'⟩ := ih hafter hrest' hchecked
    refine ⟨hextends.trans hextends', hP, fun f hf => ?_⟩
    rcases List.mem_cons.mp hf with rfl | hf
    · exact fun symbols h => hQ f rfl symbols (hextends'.trans h)
    · exact hQ' f hf

theorem mem_of_mem_roots {trees : List SyntaxTree} {decls : List Typed.Decl} {decl : Typed.Decl}
    (h : decl ∈ (roots trees decls).flatMap Typed.Root.decls) : decl ∈ decls := by
  induction trees generalizing decls with
  | nil => cases h
  | cons _ _ ih =>
    rw [roots, List.flatMap_cons, List.mem_append] at h
    rcases h with h | h
    · exact List.mem_of_mem_take h
    · exact List.mem_of_mem_drop (ih h)

end Typing

theorem Declarations.isFunction_of_populate {decls : List TopLevel} {symbols : SymbolTable}
    (hpopulate : populate decls = .ok symbols) (i : Nat) (decl : FunctionDecl)
    (hdecl : decls[i]? = some (.function decl)) : Typing.IsFunction symbols i decl := by
  obtain ⟨symbol, hsymbol, his⟩ := symbol_of_decl hpopulate hdecl
  obtain ⟨signature, hsignature, hcount⟩ := his.of_function
  exact ⟨symbol, signature, hsymbol, his.name_eq, hsignature, hcount⟩

variable {keepGoing : Bool} {trees : List SyntaxTree} {p : Typed.Program}

/-- An accepted program was declared, populated and checked without a fault. -/
theorem checkProgram_eq_some (h : (checkProgram keepGoing trees).program = some p) :
    ∃ globals symbols findings decls ctx,
      Declarations.declare (ofTrees trees) = .ok globals ∧
      Declarations.populate (ofTrees trees) = .ok symbols ∧
      Typing.decls keepGoing 0 ⟨symbols, globals⟩ (ofTrees trees) =
        (findings, some (decls, ctx)) ∧
      p = ⟨Typing.roots trees decls, ctx.symbols⟩ := by
  simp only [checkProgram] at h
  split at h
  · cases h
  · rename_i globals hdeclare
    split at h
    · cases h
    · rename_i symbols hpopulate
      obtain ⟨⟨decls, ctx⟩, hchecked, hp⟩ := Option.map_eq_some_iff.mp h
      exact ⟨globals, symbols, _, decls, ctx, hdeclare, hpopulate, Prod.ext rfl hchecked, hp.symm⟩

/-- What the check of a function ensures, it ensures of all functions of an accepted program. `P` is
what the check keeps true of its context, from the declarations on. -/
theorem accepted_forall {P : Context → Prop} {Q : SymbolTable → Typed.Function → Prop}
    (hstart : ∀ globals symbols, Declarations.declare (ofTrees trees) = .ok globals →
      Declarations.populate (ofTrees trees) = .ok symbols → P ⟨symbols, globals⟩)
    (hstep : ∀ {s s' : Progress} {id : SymbolId} {decl : FunctionDecl} {f : Typed.Function},
      P s.toContext → Typing.IsFunction s.symbols id decl →
      Typing.function id decl s = .ok (f, s') →
        P s'.toContext ∧ s.symbols.Extends s'.symbols ∧
          ∀ symbols, s'.symbols.Extends symbols → Q symbols f)
    (h : (checkProgram keepGoing trees).program = some p) :
    (∃ scopes, P ⟨p.symbols, scopes⟩) ∧ ∀ f, .function f ∈ p.decls → Q p.symbols f := by
  obtain ⟨globals, symbols, _, _, ctx, hdeclare, hpopulate, hchecked, rfl⟩ :=
    checkProgram_eq_some h
  have hfunctions : ∀ (i : Nat) decl, (ofTrees trees)[i]? = some (.function decl) →
      Typing.IsFunction symbols (0 + i) decl := by
    simpa using Declarations.isFunction_of_populate hpopulate
  obtain ⟨-, hP, hQ⟩ := Typing.decls_forall (P := P) (Q := Q) hstep
    (hstart globals symbols hdeclare hpopulate) hfunctions hchecked
  exact ⟨⟨ctx.scopes, hP⟩, fun f hf => hQ f (Typing.mem_of_mem_roots hf) _ (.refl _)⟩

/-- The functions of an accepted program are well typed. -/
theorem accepted_wellTyped (h : (checkProgram keepGoing trees).program = some p) :
    p.symbols.Grounded ∧
      ∀ f, .function f ∈ p.decls → ∃ signature, f.WellTyped p.symbols signature := by
  obtain ⟨⟨_, hsound⟩, hwell⟩ := accepted_forall (P := Context.Sound)
    (Q := fun symbols f => ∃ signature, f.WellTyped symbols signature)
    (fun _ _ hdeclare hpopulate => Declarations.sound_context hdeclare hpopulate)
    (fun hs hfunction hrun => by
      obtain ⟨hsound, -, hextends, signature, hf⟩ := Typing.function_wellTyped hs hfunction hrun
      exact ⟨hsound, hextends, fun symbols hsymbols => ⟨signature, hf symbols hsymbols⟩⟩) h
  exact ⟨hsound.grounded, hwell⟩

/-- A program that the checker accepts is well typed. -/
theorem checkProgram_wellTyped {keepGoing : Bool} {trees : List SyntaxTree} {p : Typed.Program}
    (h : (checkProgram keepGoing trees).program = some p) : p.WellTyped := by
  obtain ⟨hsymbols, hfunctions⟩ := accepted_wellTyped h
  exact ⟨hsymbols, hfunctions⟩

open Plain in
/-- A file with a struct and a function that counts in it:
`struct Counter { bool on; int count; }` and
`int run(Counter* c, int limit) { int steps = 0; while (c.on and steps < limit)
{ steps = steps + 1; c.count = steps; } return steps; }`. -/
def SyntaxTree.counter : SyntaxTree :=
  let condition : Expr := .binary .logicalAnd (field (name "c") "on")
    (.binary .lt (name "steps") (name "limit") .nowhere) .nowhere
  let next : Expr := .binary .add (name "steps") (number 1) .nowhere
  { sourceName := "counter"
    decls := [
      struct "Counter" [param (keyword "bool") "on", param (keyword "int") "count"],
      function (keyword "int") "run"
        [param (pointer (named "Counter")) "c", param (keyword "int") "limit"] [
        binding (keyword "int") "steps" (number 0),
        .whileLoop condition (.block [assign (name "steps") next,
          assign (field (name "c") "count") (name "steps")] .nowhere) none .nowhere,
        ret (name "steps")]] }

theorem exists_function_of_any {tree : SyntaxTree} {test : Typed.Function → Bool}
    (h : ((checkProgram false [tree]).program.any fun p =>
      p.decls.any fun decl => decl.function?.any test) = true) :
    ∃ p f, (checkProgram false [tree]).program = some p ∧ .function f ∈ p.decls ∧
      test f = true := by
  obtain ⟨p, hp, hany⟩ := (Option.any_eq_true _ _).mp h
  obtain ⟨decl, hdecl, hfunction⟩ := List.any_eq_true.mp hany
  obtain ⟨f, hf, htest⟩ := (Option.any_eq_true _ _).mp hfunction
  cases decl with
  | function g =>
    cases hf
    exact ⟨p, f, hp, hdecl, htest⟩
  | _ => cases hf

theorem checkProgram_wellTyped_counter :
    ∃ p f signature, (checkProgram false [.counter]).program = some p ∧ .function f ∈ p.decls ∧
      f.WellTyped p.symbols signature := by
  obtain ⟨p, f, hp, hf, -⟩ : ∃ p f, (checkProgram false [.counter]).program = some p ∧
      .function f ∈ p.decls ∧ (fun _ => true) f = true :=
    exists_function_of_any (by decide +kernel)
  obtain ⟨signature, hwell⟩ := (checkProgram_wellTyped hp).functions f hf
  exact ⟨p, f, signature, hp, hf, hwell⟩

end Laye
