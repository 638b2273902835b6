import Laye.Proofs.Elaboration.Expression
import Laye.Proofs.Typing.Scoping

/-!
# Checked statements say what was written

The checker opens and closes scopes as it goes, and adds a name to the innermost one for each
variable. `Surroundings.Fits` says that the scopes of a point are the surroundings of that point.
Whatever a statement does inside, after it the scopes are again what the surroundings after the
statement say (`Stmt.fits_after`), so names are looked up in the right ones. `Stmt.check_follows`
follows the checker: what it makes of a statement has the same form, and expressions at the same
place are related by any relation that follows the checker's rules there (`RulesInside`). To say the
same is such a relation, for any reading that allows what the checker finds (`Reading.Allows`). -/

namespace Laye

/-! ### Points of a function -/

/-- At a point of a function of a signature, the names of the open scopes are those of the
surroundings. -/
structure Surroundings.Fits (signature : Signature) (globals : Scope) (s : Surroundings)
    (ctx : Context) : Prop where
  inside : ctx.Inside signature
  names : ctx.scopes.inner.map Scope.names = s.blocks ++ [s.params]
  globals_eq : ctx.scopes.globals = globals

/-- At every point of a function, the relation follows the rules of the checker. -/
def RulesInside (globals : Scope) (symbols : SymbolTable)
    (R : Surroundings → Expr → Typed.Expr → Prop) : Prop :=
  ∀ ⦃signature : Signature⦄ ⦃s : Surroundings⦄ ⦃ctx : Context⦄, s.Fits signature globals ctx →
    ctx.symbols.Extends symbols → Typing.Rules ctx (fun _ => True) (R s) (R s)

/-- Whatever a name stands for at a point of a function, the reading allows it. -/
def Reading.Allows (reading : Reading) (globals : Scope) (symbols : SymbolTable) : Prop :=
  ∀ ⦃signature : Signature⦄ ⦃s : Surroundings⦄ ⦃ctx : Context⦄, s.Fits signature globals ctx →
    ctx.symbols.Extends symbols →
      ∀ name id, ctx.scopes.lookup name = some id → reading s name id

namespace Surroundings.Fits

variable {signature : Signature} {globals : Scope} {s : Surroundings} {ctx ctx' : Context}
  {symbols : SymbolTable}

theorem enter (h : s.Fits signature globals ctx) :
    s.enter.Fits signature globals ⟨ctx.symbols, ctx.scopes.push none⟩ := by
  refine ⟨h.inside.push, ?_, h.globals_eq⟩
  simp only [ScopeStack.push, List.map_cons, h.names]
  rfl

theorem of_scopes (h : s.Fits signature globals ctx) (hinside : ctx'.Inside signature)
    (hscopes : ctx'.scopes = ctx.scopes) : s.Fits signature globals ctx' :=
  ⟨hinside, hscopes ▸ h.names, hscopes ▸ h.globals_eq⟩

theorem add (h : s.Fits signature globals ctx) {name : String} {id : SymbolId}
    {scopes : ScopeStack} (hadd : ctx.scopes.add name id = some scopes)
    (hinside : Context.Inside signature ⟨symbols, scopes⟩) :
    (s.declare name id).Fits signature globals ⟨symbols, scopes⟩ := by
  obtain ⟨scope, _, _, hscopes, rfl⟩ := ScopeStack.add_eq_some h.inside.isInner hadd
  refine ⟨hinside, ?_, h.globals_eq⟩
  have hnames := h.names
  rw [hscopes, List.map_cons] at hnames
  -- the innermost scope is that of the innermost block, or that of the parameters
  unfold declare
  cases hblocks : s.blocks with
  | nil | cons _ _ =>
    rw [hblocks] at hnames
    obtain ⟨hscope, houter⟩ := List.cons.inj hnames
    simp [Scope.insert, hscope, houter]

end Surroundings.Fits

theorem Reading.Allows.rulesInside {reading : Reading} {globals : Scope} {symbols : SymbolTable}
    (h : reading.Allows globals symbols) :
    RulesInside globals symbols fun s => Expr.Elaborates symbols (reading s) :=
  fun _ _ _ hs hsymbols => Context.ReadAs.rules ⟨hs.inside.sound, hsymbols, h hs hsymbols⟩

namespace Check

variable {signature : Signature} {globals : Scope} {s : Surroundings} {st st' : Progress}

theorem declare_fits {ident : Ident} {ty : Ty} {duplicate : Problem} {id : SymbolId}
    (hs : s.Fits signature globals st.toContext) (hty : ty.Grounded st.symbols.IsStruct)
    (h : declare ident ty duplicate st = .ok (id, st')) :
    (s.declare ident.name id).Fits signature globals st'.toContext ∧
      st'.symbols.IsVariableOf ident id := by
  obtain ⟨hinside, -, -⟩ := Ensures.declare hs.inside hty _ _ h
  simp only [declare] at h
  split at h
  · rename_i _ hadd
    cases h
    exact ⟨hs.add hadd hinside, ty, List.getElem?_concat_length⟩
  · cases h

/-- A step in a scope of its own starts with a new block in the surroundings. After it they are what
they were. -/
theorem inScope_fits {α : Type} {step : Check α} {P : SymbolTable → α → Prop} {a : α}
    (hwell : ∀ st : Progress, st.Inside signature → Ensures signature st step P)
    (hs : s.Fits signature globals st.toContext) (h : inScope none step st = .ok (a, st')) :
    s.Fits signature globals st'.toContext ∧ st.symbols.Extends st'.symbols ∧
      ∃ start inner : Progress, s.enter.Fits signature globals start.toContext ∧
        step start = .ok (a, inner) ∧ inner.symbols = st'.symbols := by
  obtain ⟨hinside, hgrows, -⟩ := Ensures.inScope hs.inside hwell _ _ h
  obtain ⟨inner, hrun, hsymbols, hscopes⟩ := scopes_inScope (hwell _ hs.enter.inside) h
  exact ⟨hs.of_scopes hinside hscopes, hgrows.symbols, _, inner, hs.enter, hrun, hsymbols⟩

end Check

theorem Typing.rel_left {P R : Expr → Typed.Expr → Prop} {value : Option Expr}
    {value' : Option Typed.Expr} (h : Option.Rel (fun e t => P e t ∧ R e t) value value') :
    Option.Rel P value value' := by
  cases h with
  | none => exact .none
  | some h => exact .some h.1

/-! ### Statements -/

namespace Stmt

open Check (bind_eq_ok attempt_bind_eq_ok inScope_fits)

variable {signature : Signature} {globals : Scope} {s : Surroundings} {st st' : Progress}

theorem checkElse_fits {inLoop : Bool} {stmt : Option Stmt} {t : Option Typed.Stmt}
    (hs : s.Fits signature globals st.toContext) (h : checkElse inLoop stmt st = .ok (t, st')) :
    s.Fits signature globals st'.toContext := by
  cases stmt with
  | none =>
    cases h
    exact hs
  | some stmt =>
    obtain ⟨_, _, hscope, h⟩ := bind_eq_ok.mp h
    cases h
    exact (inScope_fits (fun _ => check_wellTyped inLoop stmt) hs hscope).1

theorem fits_after {inLoop : Bool} {stmt : Stmt} {t : Typed.Stmt}
    (hs : s.Fits signature globals st.toContext) (h : stmt.check inLoop st = .ok (t, st')) :
    (s.after stmt t).Fits signature globals st'.toContext := by
  cases stmt with
  | block stmts _ =>
    -- what the block declares is gone with its scope
    obtain ⟨_, _, hscope, h⟩ := bind_eq_ok.mp h
    cases h
    exact (inScope_fits (fun _ => checkBlock_wellTyped inLoop stmts) hs hscope).1
  | binding _ _ _ _ =>
    obtain ⟨⟨_, _⟩, hparts, h⟩ := attempt_bind_eq_ok h
    obtain ⟨_, _, hdeclare, h⟩ := bind_eq_ok.mp h
    cases h
    obtain ⟨hgrounded, -⟩ := Typing.bindingParts_eq_ok hs.inside.sound hparts
    exact (Check.declare_fits hs hgrounded hdeclare).1
  | expression _ | ret _ _ | assign _ _ _ | yield _ _ =>
    obtain ⟨_, -, h⟩ := attempt_bind_eq_ok h
    cases h
    exact hs
  | conditional _ body _ _ | whileLoop _ body _ _ =>
    obtain ⟨_, -, h⟩ := attempt_bind_eq_ok h
    obtain ⟨_, _, hbody, h⟩ := bind_eq_ok.mp h
    obtain ⟨_, _, helse, h⟩ := bind_eq_ok.mp h
    cases h
    have hs1 := (inScope_fits (fun _ => check_wellTyped _ body) hs hbody).1
    exact checkElse_fits hs1 helse
  | breakLoop _ | continueLoop _ =>
    obtain ⟨rfl, rfl⟩ := loopControl_eq_ok h
    exact hs

variable {symbols : SymbolTable} {R : Surroundings → Expr → Typed.Expr → Prop}

mutual

/-- What checking makes of a statement follows the statement. -/
theorem check_follows (hR : RulesInside globals symbols R) : (inLoop : Bool) →
    (stmt : Stmt) → {s : Surroundings} → {st st' : Progress} → {t : Typed.Stmt} →
    s.Fits signature globals st.toContext → stmt.check inLoop st = .ok (t, st') →
    st'.symbols.Extends symbols → stmt.Follows symbols R s t
  | inLoop, .block stmts span, _, _, _, _, hs, h, hsymbols => by
    obtain ⟨stmts', _, hscope, h⟩ := bind_eq_ok.mp h
    cases h
    obtain ⟨-, -, _, _, hstart, hrun, hinner⟩ :=
      inScope_fits (fun _ => checkBlock_wellTyped inLoop stmts) hs hscope
    exact .block span (checkBlock_follows hR inLoop stmts hstart hrun (hinner ▸ hsymbols))
  | inLoop, .binding ty ident value span, _, _, _, _, hs, h, hsymbols => by
    obtain ⟨⟨ty', value'⟩, hparts, h⟩ := attempt_bind_eq_ok h
    obtain ⟨id, _, hdeclare, h⟩ := bind_eq_ok.mp h
    cases h
    obtain ⟨hgrounded, -⟩ := Typing.bindingParts_eq_ok hs.inside.sound hparts
    obtain ⟨-, hgrows, -⟩ := Check.Ensures.declare hs.inside hgrounded _ _ hdeclare
    obtain ⟨ty'', hvariable⟩ := (Check.declare_fits hs hgrounded hdeclare).2
    -- the value was checked before the variable was declared
    obtain ⟨-, -, hvalue⟩ := (hR hs (hgrows.symbols.trans hsymbols)).of_bindingParts
      (fun _ => trivial) (fun _ _ => trivial) hparts
    exact .binding ty span ⟨ty'', hsymbols.getElem? hvariable⟩ (Typing.rel_left hvalue)
  | inLoop, .expression value, _, _, _, _, hs, h, hsymbols => by
    unfold check at h
    obtain ⟨value', hvalue, h⟩ := attempt_bind_eq_ok h
    cases h
    exact .expression ((hR hs hsymbols).of_exprAlone hvalue)
  | inLoop, .ret value span, _, _, _, _, hs, h, hsymbols => by
    unfold check at h
    obtain ⟨value', hvalue, h⟩ := attempt_bind_eq_ok h
    cases h
    obtain ⟨_, -, -, hvalue⟩ := (hR hs hsymbols).of_returnValue (fun _ => trivial) hvalue
    exact .ret span (Typing.rel_left hvalue)
  | inLoop, .assign target value span, _, _, _, _, hs, h, hsymbols => by
    unfold check at h
    obtain ⟨⟨target', value'⟩, hsides, h⟩ := attempt_bind_eq_ok h
    cases h
    obtain ⟨htarget, -, -, hvalue, -⟩ := (hR hs hsymbols).of_assignment (fun _ => trivial) hsides
    exact .assign span htarget hvalue
  | inLoop, .conditional _ body elseBody _, _, _, _, _, hs, h, hsymbols
  | inLoop, .whileLoop _ body elseBody _, _, _, _, _, hs, h, hsymbols => by
    unfold check at h
    obtain ⟨_, hcondition, h⟩ := attempt_bind_eq_ok h
    obtain ⟨_, _, hbody, h⟩ := bind_eq_ok.mp h
    obtain ⟨_, _, helse, h⟩ := bind_eq_ok.mp h
    cases h
    obtain ⟨hs1, hextends, _, _, hstart, hrun, hinner⟩ :=
      inScope_fits (fun _ => check_wellTyped _ body) hs hbody
    obtain ⟨-, hgrows, -⟩ := checkElse_wellTyped inLoop elseBody hs1.inside _ _ helse
    have hsymbols1 := hgrows.symbols.trans hsymbols
    -- the condition is checked first, outside of both bodies
    have hrules := hR hs (hextends.trans hsymbols1)
    constructor
    · exact (hrules.of_exprAt trivial hcondition).1
    · exact check_follows hR _ body hstart hrun (hinner ▸ hsymbols1)
    · exact checkElse_follows hR inLoop elseBody hs1 helse hsymbols
  | inLoop, .breakLoop _, _, _, _, _, _, h, _ | inLoop, .continueLoop _, _, _, _, _, _, h, _ => by
    unfold check at h
    obtain ⟨rfl, rfl⟩ := loopControl_eq_ok h
    constructor
  | inLoop, .yield value span, _, _, _, _, hs, h, hsymbols => by
    unfold check at h
    obtain ⟨value', hvalue, h⟩ := attempt_bind_eq_ok h
    cases h
    exact .yield span (Typing.optional_rel (fun _ _ => (hR hs hsymbols).of_exprAlone) hvalue)

theorem checkBlock_follows (hR : RulesInside globals symbols R) : (inLoop : Bool) →
    (stmts : List Stmt) → {s : Surroundings} → {st st' : Progress} → {ts : List Typed.Stmt} →
    s.Fits signature globals st.toContext → checkBlock inLoop stmts st = .ok (ts, st') →
    st'.symbols.Extends symbols → BlockFollows symbols R s stmts ts
  | _, [], _, _, _, _, _, h, _ => by
    cases h
    exact .nil
  | inLoop, stmt :: rest, _, _, _, _, hs, h, hsymbols => by
    obtain ⟨_, st1, hstmt, h⟩ := bind_eq_ok.mp h
    have hs1 := fits_after hs hstmt
    split at h
    · rename_i hexits
      cases hspan : Typing.stretch? rest with
      | none =>
        rw [hspan] at h
        cases h
        -- only nothing has no stretch
        cases rest with
        | nil => exact .last (check_follows hR inLoop stmt hs hstmt hsymbols) hexits
        | cons _ _ => cases hspan
      | some span =>
        rw [hspan] at h
        obtain ⟨_, _, hwarn, h⟩ := bind_eq_ok.mp h
        cases hwarn
        obtain ⟨dead, _, hdead, h⟩ := bind_eq_ok.mp h
        cases h
        -- a warning changes nothing about names
        have hs2 : Surroundings.Fits signature globals _
            (Progress.toContext { st1 with unreachable := st1.unreachable ++ [span] }) := hs1
        obtain ⟨-, hgrows, -⟩ := checkAll_wellTyped inLoop rest hs2.inside _ _ hdead
        exact .dead
          (check_follows hR inLoop stmt hs hstmt (hgrows.symbols.trans hsymbols)) hexits
          hspan (checkAll_follow hR inLoop rest hs2 hdead hsymbols)
    · rename_i hexits
      rw [Bool.not_eq_true] at hexits
      obtain ⟨_, _, hrest, h⟩ := bind_eq_ok.mp h
      cases h
      obtain ⟨-, hgrows, -⟩ := checkBlock_wellTyped inLoop rest hs1.inside _ _ hrest
      exact .cons
        (check_follows hR inLoop stmt hs hstmt (hgrows.symbols.trans hsymbols)) hexits
        (checkBlock_follows hR inLoop rest hs1 hrest hsymbols)

theorem checkAll_follow (hR : RulesInside globals symbols R) : (inLoop : Bool) →
    (stmts : List Stmt) → {s : Surroundings} → {st st' : Progress} → {ts : List Typed.Stmt} →
    s.Fits signature globals st.toContext → checkAll inLoop stmts st = .ok (ts, st') →
    st'.symbols.Extends symbols → AllFollow symbols R s stmts ts
  | _, [], _, _, _, _, _, h, _ => by
    cases h
    exact .nil
  | inLoop, stmt :: rest, _, _, _, _, hs, h, hsymbols => by
    obtain ⟨stmt', st1, hstmt, h⟩ := bind_eq_ok.mp h
    obtain ⟨rest', _, hrest, h⟩ := bind_eq_ok.mp h
    cases h
    have hs1 := fits_after hs hstmt
    obtain ⟨-, hgrows, -⟩ := checkAll_wellTyped inLoop rest hs1.inside _ _ hrest
    exact .cons
      (check_follows hR inLoop stmt hs hstmt (hgrows.symbols.trans hsymbols))
      (checkAll_follow hR inLoop rest hs1 hrest hsymbols)

theorem checkElse_follows (hR : RulesInside globals symbols R) : (inLoop : Bool) →
    (stmt : Option Stmt) → {s : Surroundings} → {st st' : Progress} → {t : Option Typed.Stmt} →
    s.Fits signature globals st.toContext → checkElse inLoop stmt st = .ok (t, st') →
    st'.symbols.Extends symbols → ElseFollows symbols R s stmt t
  | _, none, _, _, _, _, _, h, _ => by
    cases h
    exact .none
  | inLoop, some stmt, _, _, _, _, hs, h, hsymbols => by
    obtain ⟨_, _, hscope, h⟩ := bind_eq_ok.mp h
    cases h
    obtain ⟨-, -, _, _, hstart, hrun, hinner⟩ :=
      inScope_fits (fun _ => check_wellTyped inLoop stmt) hs hscope
    exact .some (check_follows hR inLoop stmt hstart hrun (hinner ▸ hsymbols))

end

end Stmt

end Laye
