import Laye.Proofs.Typing.Declarations
import Laye.Proofs.Typing.Weakening

/-!
# Checked statements are well typed

Inside a function the checker's context stays sound and belongs to that function
(`Context.Inside`), while variables are added to it and names to its innermost scope
(`Context.Grows`). `Check.Ensures` says this of a step, together with what the step gives, and has a
rule for each way in which steps are put together. `Stmt.check_wellTyped` follows the checker with
these rules: what it makes of a statement is well typed over any symbols that the check may end
with.
-/

namespace Laye

open SymbolTable (symbolAt_eq)

/-! ### Points of a function -/

namespace Context

/-- A point inside a function of a signature. -/
structure Inside (signature : Signature) (ctx : Context) : Prop where
  sound : ctx.Sound
  isInner : ctx.scopes.inner ≠ []
  function : ∃ id symbol, ctx.scopes.enclosingFunction = some id ∧ ctx.symbols[id]? = some symbol ∧
    symbol.signature? = some signature

/-- From a point to a later one, at the same depth: variables were added, and names to the innermost
scope alone. -/
structure Grows (ctx ctx' : Context) : Prop where
  symbols : ctx.symbols.Extends ctx'.symbols
  globals : ctx'.scopes.globals = ctx.scopes.globals
  outer : ctx'.scopes.inner.tail = ctx.scopes.inner.tail

variable {ctx ctx' ctx'' : Context} {signature : Signature} {symbols : SymbolTable}

theorem Grows.refl (ctx : Context) : ctx.Grows ctx := ⟨.refl _, rfl, rfl⟩

theorem Grows.trans (h : ctx.Grows ctx') (h' : ctx'.Grows ctx'') : ctx.Grows ctx'' :=
  ⟨h.symbols.trans h'.symbols, h'.globals.trans h.globals, h'.outer.trans h.outer⟩

variable {scopes : ScopeStack}

theorem Grows.pop_push {function : Option SymbolId}
    (h : Grows ⟨symbols, scopes.push function⟩ ctx') : ctx'.scopes.pop = scopes :=
  ScopeStack.ext (by simp [h.outer]) (by simp [h.globals])

/-- A name that means a struct is that of a struct in the table. -/
theorem Sound.isStruct (h : ctx.Sound) {name : String}
    (hname : ctx.typeNames.isStruct name = true) : ctx.symbols.IsStruct name := by
  simp only [Context.typeNames] at hname
  split at hname
  · rename_i _ hid
    obtain ⟨_, hsymbol, rfl⟩ := h.lookup hid
    rw [symbolAt, symbolAt_eq hsymbol] at hname
    exact SymbolTable.isStruct_of_mem (List.mem_of_getElem? hsymbol) (by simpa using hname)
  · cases hname

/-- A name that means a type is that of a symbol with this type. -/
theorem Sound.mem_of_resolve (h : ctx.Sound) {ident : Ident} {ty : Ty}
    (hty : ctx.typeNames.resolve ident = .ok ty) : ∃ symbol ∈ ctx.symbols, symbol.ty = ty := by
  simp only [Context.typeNames] at hty
  split at hty
  · cases hty
  · rename_i _ hid
    obtain ⟨symbol, hsymbol, -⟩ := h.lookup hid
    rw [symbolAt, symbolAt_eq hsymbol] at hty
    split at hty
    · exact ⟨symbol, List.mem_of_getElem? hsymbol, Except.ok.inj hty⟩
    · cases hty

theorem Sound.typeNames (h : ctx.Sound) :
    ctx.typeNames.Gives (Ty.Grounded ctx.symbols.IsStruct) := by
  refine ⟨fun _ => h.isStruct, fun ident ty hty => ?_⟩
  obtain ⟨symbol, hmem, rfl⟩ := h.mem_of_resolve hty
  exact h.grounded symbol hmem

theorem Sound.extend (h : ctx.Sound) (hsymbols : ctx.symbols.Extends symbols)
    (hgrounded : symbols.Grounded) : Sound ⟨symbols, ctx.scopes⟩ := by
  refine ⟨hgrounded, fun scope hscope name id hid =>
    hsymbols.named (h.inner scope hscope name id hid),
    fun name id hid => hsymbols.named (h.global name id hid), fun name hname => ?_⟩
  have hstruct : ctx.symbols.IsStruct name := hsymbols.isStruct_eq ▸ hname
  rw [hsymbols.expand_eq, ← h.expand name hstruct]
  simp only [Context.expand]
  split
  · rename_i id hid
    obtain ⟨_, hsymbol, -⟩ := h.global name id hid
    simp only [symbolAt, symbolAt_eq hsymbol,
      symbolAt_eq (hsymbols.getElem? hsymbol)]
  · rfl

theorem Inside.extend (h : ctx.Inside signature) (hsymbols : ctx.symbols.Extends symbols)
    (hgrounded : symbols.Grounded) : Inside signature ⟨symbols, ctx.scopes⟩ := by
  obtain ⟨id, symbol, hid, hsymbol, hsignature⟩ := h.function
  exact ⟨h.sound.extend hsymbols hgrounded, h.isInner, id, symbol, hid, hsymbols.getElem? hsymbol,
    hsignature⟩

theorem Sound.push (h : ctx.Sound) (function : Option SymbolId) :
    Sound ⟨ctx.symbols, ctx.scopes.push function⟩ := by
  refine ⟨h.grounded, fun scope hscope name id hid => ?_, h.global, h.expand⟩
  rcases List.mem_cons.mp hscope with rfl | hscope
  · cases hid
  · exact h.inner scope hscope name id hid

theorem Inside.push (h : ctx.Inside signature) :
    Inside signature ⟨ctx.symbols, ctx.scopes.push none⟩ :=
  ⟨h.sound.push none, by simp [ScopeStack.push], h.function⟩

theorem Inside.add (h : ctx.Inside signature) {name : String} {id : SymbolId}
    (hnamed : ctx.symbols.Named name id) (hadd : ctx.scopes.add name id = some scopes) :
    Inside signature ⟨ctx.symbols, scopes⟩ ∧ ctx.Grows ⟨ctx.symbols, scopes⟩ := by
  obtain ⟨scope, _, _, hscopes, rfl⟩ := ScopeStack.add_eq_some h.isInner hadd
  refine ⟨⟨⟨h.sound.grounded, fun scope' hmem name' id' hid => ?_, h.sound.global, h.sound.expand⟩,
    by simp, ?_⟩, .refl _, rfl, by simp [hscopes]⟩
  · rcases List.mem_cons.mp hmem with rfl | hmem
    · rw [Scope.find?_insert] at hid
      split at hid
      · rename_i hname
        cases hid
        exact hname ▸ hnamed
      · exact h.sound.inner scope (by simp [hscopes]) name' id' hid
    · exact h.sound.inner scope' (by simp [hscopes, hmem]) name' id' hid
  · obtain ⟨function, symbol, hfunction, hsymbol, hsignature⟩ := h.function
    refine ⟨function, symbol, ?_, hsymbol, hsignature⟩
    rw [← hfunction]
    simp [ScopeStack.enclosingFunction, ScopeStack.current, hscopes, Scope.insert]

theorem Inside.enclosingSignature? (h : ctx.Inside signature) :
    ctx.enclosingSignature? = some signature := by
  obtain ⟨_, _, hid, hsymbol, hsignature⟩ := h.function
  simp [Context.enclosingSignature?, hid, symbolAt, symbolAt_eq hsymbol, hsignature]

theorem Inside.signature_grounded (h : ctx.Inside signature) :
    signature.Grounded ctx.symbols.IsStruct := by
  obtain ⟨_, symbol, -, hsymbol, hsignature⟩ := h.function
  exact Symbol.grounded_of_signature? hsignature
    (h.sound.grounded symbol (List.mem_of_getElem? hsymbol))

end Context

/-! ### Steps -/

namespace Check

variable {α β : Type} {signature : Signature} {s : Progress}

variable {step : Check α} {s' : Progress}

/-- Two steps of the checker succeed if the first does and the second does after it. -/
theorem bind_eq_ok {next : α → Check β} {b : β} :
    (step >>= next) s = .ok (b, s') ↔
      ∃ a middle, step s = .ok (a, middle) ∧ next a middle = .ok (b, s') := by
  rw [show (step >>= next) s = (step s >>= fun p => next p.1 p.2) from rfl, Typing.bind_eq_ok]
  exact ⟨fun ⟨p, h, h'⟩ => ⟨p.1, p.2, h, h'⟩, fun ⟨a, middle, h, h'⟩ => ⟨(a, middle), h, h'⟩⟩

theorem attempt_eq_ok {result : Except Fault α} {a : α} (h : attempt result s = .ok (a, s')) :
    result = .ok a ∧ s = s' := by
  unfold attempt at h
  split at h
  · cases h
    exact ⟨rfl, rfl⟩
  · cases h

/-- A step that succeeds stays inside the function, and what it gives is as `post` says, also when
more variables are added later. -/
def Ensures (signature : Signature) (s : Progress) (step : Check α)
    (post : SymbolTable → α → Prop) : Prop :=
  ∀ a s', step s = .ok (a, s') → s'.Inside signature ∧ s.Grows s'.toContext ∧
    ∀ symbols, s'.symbols.Extends symbols → post symbols a

namespace Ensures

variable {step : Check α} {next : α → Check β} {P : SymbolTable → α → Prop}
  {Q : SymbolTable → β → Prop}

theorem pure {a : α} (hs : s.Inside signature)
    (h : ∀ symbols, s.symbols.Extends symbols → P symbols a) :
    Ensures signature s (Pure.pure a) P := by
  rintro _ _ ⟨⟩
  exact ⟨hs, .refl _, h⟩

theorem bind (hstep : Ensures signature s step P)
    (hnext : ∀ a s', s'.Inside signature → P s'.symbols a →
      Ensures signature s' (next a) fun symbols b => P symbols a → Q symbols b) :
    Ensures signature s (step >>= next) Q := by
  intro b s' h
  obtain ⟨a, middle, hrun, hrest⟩ := bind_eq_ok.mp h
  obtain ⟨hinside, hgrows, hpost⟩ := hstep a middle hrun
  obtain ⟨hinside', hgrows', hpost'⟩ := hnext a middle hinside (hpost _ (.refl _)) b s' hrest
  exact ⟨hinside', hgrows.trans hgrows',
    fun symbols h => hpost' symbols h (hpost symbols (hgrows'.symbols.trans h))⟩

theorem attempt {f : Context → Except Fault α}
    (h : ∀ a, f s.toContext = .ok a → ∀ symbols, s.symbols.Extends symbols → P symbols a)
    (hnext : ∀ a, P s.symbols a →
      Ensures signature s (next a) fun symbols b => P symbols a → Q symbols b) :
    Ensures signature s (context >>= fun ctx => Check.attempt (f ctx) >>= next) Q := by
  intro b s' hrun
  obtain ⟨_, _, hcontext, hrun⟩ := bind_eq_ok.mp hrun
  cases hcontext
  obtain ⟨a, _, hattempt, hrest⟩ := bind_eq_ok.mp hrun
  obtain ⟨ha, rfl⟩ := attempt_eq_ok hattempt
  have hpost := h a ha
  obtain ⟨hinside, hgrows, hpost'⟩ := hnext a (hpost _ (.refl _)) b s' hrest
  exact ⟨hinside, hgrows,
    fun symbols h => hpost' symbols h (hpost symbols (hgrows.symbols.trans h))⟩

theorem warn (hs : s.Inside signature) (span : Span) :
    Ensures signature s (Check.warn span) fun _ _ => True := by
  rintro _ _ ⟨⟩
  exact ⟨hs, .refl _, fun _ _ => trivial⟩

end Ensures

theorem inScope_eq_ok {function : Option SymbolId} {a : α}
    (h : inScope function step s = .ok (a, s')) :
    ∃ inner, step { s with scopes := s.scopes.push function } = .ok (a, inner) ∧
      s' = { inner with scopes := inner.scopes.pop } := by
  obtain ⟨_, _, hopen, h⟩ := bind_eq_ok.mp h
  cases hopen
  obtain ⟨_, inner, hstep, h⟩ := bind_eq_ok.mp h
  obtain ⟨_, _, hclose, h⟩ := bind_eq_ok.mp h
  cases hclose
  cases h
  exact ⟨inner, hstep, rfl⟩

/-- What a step ensures inside a scope of its own holds outside of it. -/
theorem Ensures.inScope {P : SymbolTable → α → Prop} (hs : s.Inside signature)
    (hstep : ∀ s' : Progress, s'.Inside signature → Ensures signature s' step P) :
    Ensures signature s (Check.inScope none step) P := by
  intro a s' h
  obtain ⟨inner, hrun, rfl⟩ := inScope_eq_ok h
  obtain ⟨hinside, hgrows, hpost⟩ := hstep _ hs.push a inner hrun
  have hscopes : inner.scopes.pop = s.scopes := hgrows.pop_push
  refine ⟨?_, ⟨hgrows.symbols, ?_, ?_⟩, hpost⟩
  · simp only [hscopes]
    exact hs.extend hgrows.symbols hinside.sound.grounded
  · rw [hscopes]
  · rw [hscopes]

/-- A declared name is that of a variable of the given type. -/
theorem Ensures.declare {ident : Ident} {ty : Ty} {duplicate : Problem} (hs : s.Inside signature)
    (hty : ty.Grounded s.symbols.IsStruct) :
    Ensures signature s (Check.declare ident ty duplicate) fun symbols id =>
      Typed.IsVariable symbols id ty := by
  intro id s' h
  simp only [Check.declare] at h
  generalize hsymbol : Symbol.mk ident.name .binding ident.span ty = symbol at h
  split at h
  · rename_i _ hadd
    cases h
    -- First the symbol is there, then its name.
    have hnew : (s.symbols ++ [symbol])[s.symbols.length]? = some symbol :=
      List.getElem?_concat_length
    have hextends : s.symbols.Extends (s.symbols ++ [symbol]) :=
      ⟨[symbol], rfl, by simp [← hsymbol]⟩
    have hgrounded : SymbolTable.Grounded (s.symbols ++ [symbol]) := by
      intro other hmem
      rw [hextends.isStruct_eq]
      rcases List.mem_append.mp hmem with hmem | hmem
      · exact hs.sound.grounded other hmem
      · rw [List.mem_singleton.mp hmem, ← hsymbol]
        exact hty
    have hnamed : SymbolTable.Named (s.symbols ++ [symbol]) ident.name s.symbols.length :=
      ⟨symbol, hnew, by rw [← hsymbol]⟩
    obtain ⟨hinside, hgrows⟩ := (hs.extend hextends hgrounded).add hnamed hadd
    refine ⟨hinside, ⟨hextends, hgrows.globals, hgrows.outer⟩, fun symbols h => ?_⟩
    exact ⟨symbol, h.getElem? hnew, by rw [← hsymbol], by rw [← hsymbol]⟩
  · cases h

end Check

/-! ### Parts of statements -/

namespace Typing

open Typed.Expr (WellTyped)

variable {ctx : Context}

variable {e : Expr} {value : Option Expr} {value' : Option Typed.Expr}

theorem exprAt_wellTyped (hctx : ctx.Sound) {ty : Ty} {e' : Typed.Expr}
    (h : exprAt ctx ty e = .ok e') (hty : ty.Grounded ctx.symbols.IsStruct) :
    e'.WellTyped ctx.symbols ∧ e'.ty = ty :=
  hctx.rules.of_exprAt hty h

theorem exprAlone_wellTyped (hctx : ctx.Sound) {e' : Typed.Expr} (h : exprAlone ctx e = .ok e') :
    e'.WellTyped ctx.symbols :=
  hctx.rules.of_exprAlone h

theorem condition_wellTyped (hctx : ctx.Sound) (e' : Typed.Expr) (h : exprAt ctx .bool e = .ok e')
    (symbols : SymbolTable) (hsymbols : ctx.symbols.Extends symbols) :
    e'.WellTyped symbols ∧ e'.ty = .bool := by
  obtain ⟨hwell, hty⟩ := exprAt_wellTyped hctx h trivial
  exact ⟨hwell.mono hsymbols, hty⟩

theorem bindingParts_eq_ok (hctx : ctx.Sound) {written : Option TypeExpr} {ident : Ident}
    {span : Span} {ty : Ty} (h : bindingParts ctx written ident value span = .ok (ty, value')) :
    ty.Grounded ctx.symbols.IsStruct ∧ ty ≠ .void ∧
      ∀ e, value' = some e → e.WellTyped ctx.symbols ∧ e.ty = ty := by
  obtain ⟨hgrounded, hvoid, hvalue⟩ := hctx.rules.of_bindingParts
    (fun hresolve => TypeExpr.resolve_gives (Ty.closed_grounded _) hctx.typeNames _ hresolve)
    (fun _ hwell => hwell.grounded hctx.grounded) h
  refine ⟨hgrounded, hvoid, fun e he => ?_⟩
  obtain ⟨_, hwell⟩ := exists_of_rel hvalue he
  exact hwell

theorem returnValue_returns {signature : Signature} (hctx : ctx.Inside signature) {span : Span}
    (h : returnValue ctx value span = .ok value') :
    Typed.Expr.Returns ctx.symbols signature.returnType value' := by
  have henclosing := hctx.enclosingSignature?
  obtain ⟨_, hsignature, hvoid, hvalue⟩ := hctx.sound.rules.of_returnValue
    (fun hsignature => by
      cases henclosing.symm.trans hsignature
      exact (Signature.grounded_iff.mp hctx.signature_grounded).1) h
  cases henclosing.symm.trans hsignature
  cases hvalue with
  | none => exact Ty.eq_void_of_isVoid hvoid
  | some hwell =>
    refine ⟨fun hty => ?_, hwell⟩
    rw [hty] at hvoid
    cases hvoid

theorem assignment_eq_ok (hctx : ctx.Sound) {target value : Expr} {target' value' : Typed.Expr}
    (h : assignment ctx target value = .ok (target', value')) :
    target'.WellTyped ctx.symbols ∧ target'.isPlace ctx.symbols.isBinding = true ∧
      target'.readOnlyContainer? = none ∧ value'.WellTyped ctx.symbols ∧
      value'.ty = target'.ty :=
  hctx.rules.of_assignment (fun hwell => hwell.grounded hctx.grounded) h

end Typing

/-! ### Statements -/

namespace Stmt

open Check (Ensures)

variable {signature : Signature}

theorem loopControl_ensures {inLoop : Bool} {keyword : String} {span : Span} {t : Typed.Stmt}
    {s : Progress} (hs : s.Inside signature)
    (ht : ∀ symbols, t.WellTyped symbols signature.returnType true) :
    Ensures signature s (do Check.attempt (Typing.loopControl inLoop keyword span); pure t)
      fun symbols t => t.WellTyped symbols signature.returnType inLoop := by
  cases inLoop with
  | false =>
    intro _ _ h
    cases h
  | true => exact .pure hs fun symbols _ => ht symbols

mutual

/-- A checked statement is well typed. -/
theorem check_wellTyped : (inLoop : Bool) → (stmt : Stmt) → {s : Progress} →
    s.Inside signature → Ensures signature s (stmt.check inLoop) fun symbols t =>
      t.WellTyped symbols signature.returnType inLoop
  | inLoop, .block stmts span, _, hs => by
    refine .bind (.inScope hs fun s' hs' => checkBlock_wellTyped inLoop stmts hs') ?_
    intro stmts' s' hs' _
    exact .pure hs' fun symbols _ hstmts => .block span hstmts
  | inLoop, .binding ty ident value span, s, hs => by
    refine .attempt (P := fun symbols part => part.1.Grounded symbols.IsStruct ∧
      part.1 ≠ .void ∧ ∀ e, part.2 = some e → e.WellTyped symbols ∧ e.ty = part.1) ?_ ?_
    · rintro ⟨ty', value'⟩ h symbols hsymbols
      obtain ⟨hty, hvoid, hvalue⟩ := Typing.bindingParts_eq_ok hs.sound h
      exact ⟨hsymbols.isStruct_eq ▸ hty, hvoid,
        fun e he => ⟨(hvalue e he).1.mono hsymbols, (hvalue e he).2⟩⟩
    · rintro ⟨ty', value'⟩ ⟨hty, -, -⟩
      refine .bind (.declare hs hty) ?_
      intro id s' hs' _
      refine .pure hs' fun symbols _ hvariable hparts => ?_
      obtain ⟨_, hsymbol, hkind, rfl⟩ := hvariable
      exact .binding span hsymbol hkind hparts.2.1 hparts.2.2
  | inLoop, .expression value, _, hs => by
    refine .attempt (fun e h symbols hsymbols =>
      (Typing.exprAlone_wellTyped hs.sound h).mono hsymbols) ?_
    intro e _
    exact .pure hs fun symbols _ he => .expression he
  | inLoop, .ret value span, _, hs => by
    refine .attempt (fun value' h symbols hsymbols =>
      (Typing.returnValue_returns hs h).mono hsymbols) ?_
    intro value' _
    exact .pure hs fun symbols _ hvalue => .ret span hvalue
  | inLoop, .assign target value span, _, hs => by
    refine .attempt (P := fun symbols sides => Typed.Stmt.WellTyped symbols signature.returnType
      inLoop (.assign sides.1 sides.2 span)) ?_ ?_
    · rintro ⟨target', value'⟩ h symbols hsymbols
      obtain ⟨htarget, hplace, hwrite, hvalue, hsame⟩ := Typing.assignment_eq_ok hs.sound h
      exact .assign span (htarget.mono hsymbols) ((htarget.isPlace_eq hsymbols).trans hplace) hwrite
        (hvalue.mono hsymbols) hsame
    · rintro ⟨target', value'⟩ _
      exact .pure hs fun symbols _ hassign => hassign
  | inLoop, .conditional _ body elseBody _, _, hs
  | inLoop, .whileLoop _ body elseBody _, _, hs => by
    refine .attempt (Typing.condition_wellTyped hs.sound) ?_
    intro condition' _
    refine .bind (.inScope hs fun s' hs' => check_wellTyped _ body hs') ?_
    intro body' s' hs' _
    refine .bind (checkElse_wellTyped inLoop elseBody hs') ?_
    intro elseBody' s'' hs'' _
    refine .pure hs'' fun symbols _ helse hbody hcondition => ?_
    constructor
    exacts [hcondition.1, hcondition.2, hbody, helse]
  | inLoop, .breakLoop span, _, hs => loopControl_ensures hs fun _ => .breakLoop span
  | inLoop, .continueLoop span, _, hs => loopControl_ensures hs fun _ => .continueLoop span
  | inLoop, .yield value span, _, hs => by
    refine .attempt (P := fun symbols value => ∀ e, value = some e → e.WellTyped symbols) ?_ ?_
    · intro value' h symbols hsymbols e he
      obtain ⟨_, hchecked⟩ := Typing.exists_of_rel (Typing.optional_rel (fun _ _ => id) h) he
      exact (Typing.exprAlone_wellTyped hs.sound hchecked).mono hsymbols
    · intro value' _
      exact .pure hs fun symbols _ hvalue => .yield span hvalue

/-- All statements of a checked block are well typed. -/
theorem checkBlock_wellTyped : (inLoop : Bool) → (stmts : List Stmt) → {s : Progress} →
    s.Inside signature → Ensures signature s (checkBlock inLoop stmts) fun symbols ts =>
      ∀ t ∈ ts, t.WellTyped symbols signature.returnType inLoop
  | _, [], _, hs => .pure hs (by simp)
  | inLoop, stmt :: rest, _, hs => by
    refine .bind (check_wellTyped inLoop stmt hs) ?_
    intro stmt' s' hs' _
    split
    · split
      · exact .pure hs' fun symbols _ hstmt => by simpa using hstmt
      · rename_i span _
        refine .bind (.warn hs' span) ?_
        intro _ s'' hs'' _
        refine .bind (checkAll_wellTyped inLoop rest hs'') ?_
        intro dead last hlast _
        exact .pure hlast fun symbols _ hdead _ hstmt => by
          simpa using ⟨hstmt, .deadCode span hdead⟩
    · refine .bind (checkBlock_wellTyped inLoop rest hs') ?_
      intro rest' s'' hs'' _
      exact .pure hs'' fun symbols _ hrest hstmt => by simpa using ⟨hstmt, hrest⟩

theorem checkAll_wellTyped : (inLoop : Bool) → (stmts : List Stmt) → {s : Progress} →
    s.Inside signature → Ensures signature s (checkAll inLoop stmts) fun symbols ts =>
      ∀ t ∈ ts, t.WellTyped symbols signature.returnType inLoop
  | _, [], _, hs => .pure hs (by simp)
  | inLoop, stmt :: rest, _, hs => by
    refine .bind (check_wellTyped inLoop stmt hs) ?_
    intro stmt' s' hs' _
    refine .bind (checkAll_wellTyped inLoop rest hs') ?_
    intro rest' s'' hs'' _
    exact .pure hs'' fun symbols _ hrest hstmt => by simpa using ⟨hstmt, hrest⟩

theorem checkElse_wellTyped : (inLoop : Bool) → (stmt : Option Stmt) → {s : Progress} →
    s.Inside signature → Ensures signature s (checkElse inLoop stmt) fun symbols t? =>
      ∀ t, t? = some t → t.WellTyped symbols signature.returnType inLoop
  | _, none, _, hs => .pure hs (by simp)
  | inLoop, some stmt, _, hs => by
    refine .bind (.inScope hs fun s' hs' => check_wellTyped inLoop stmt hs') ?_
    intro stmt' s' hs' _
    exact .pure hs' fun symbols _ hstmt => by simpa using hstmt

end

end Stmt

end Laye
