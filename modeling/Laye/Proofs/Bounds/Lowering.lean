import Laye.Proofs.Arrangement.Lowering
import Laye.Proofs.Passes.Expression
import Laye.Proofs.Typing.Places

/-!
# What lowering reads

Lowering reads the symbols of a program by the ids that its typed trees hold, and names fields by
their places. Nothing is added to the symbols by then, so `Guarded.lookAtDecl` can look at all ids
and places of the trees before. Those of an accepted program are in their tables, as it is well
typed (`Guarded.lookAtDecls_eq_ok`).

Lowering reads nothing else: symbols that come after those of the program make no difference to its
module (`accepted_lower_append`).
-/

namespace Laye

namespace Typed.Decl

/-- The place of the symbol of a declaration. -/
def symbol : Decl → SymbolId
  | .struct id _ | .enum id _ => id
  | .function f => f.symbol

/-- The symbol is of the kind of the declaration and, where that has a name, of its name. -/
def Denotes (symbol : Symbol) : Decl → Prop
  | .struct _ _ => symbol.kind = .struct
  | .enum _ _ => symbol.kind = .enum
  | .function f => symbol.kind = .function ∧ symbol.name = f.name

instance (symbol : Symbol) (d : Decl) : Decidable (Denotes symbol d) := by
  cases d <;> unfold Denotes <;> infer_instance

end Typed.Decl

namespace Guarded

/-! ### What lowering reads -/

variable (symbols : SymbolTable)

/-- Looks at the symbol of an id. -/
def lookAt (id : SymbolId) : Except Trap Unit := do
  let _ ← symbolAt symbols id
  .ok ()

/-- Looks at the symbol or the field that an expression names itself. -/
def lookAtExpr : Typed.Expr → Except Trap Unit
  | .load _ _ id | .invoke _ _ id _ => lookAt symbols id
  | .field _ _ target _ place =>
    match target.ty with
    | .struct _ _ fields => do
      let _ ← fieldAt fields place
      .ok ()
    | _ => .ok ()
  | _ => .ok ()

/-- Looks at the symbol of the variable that a statement declares itself. -/
def lookAtStmt : Typed.Stmt → Except Trap Unit
  | .binding id _ _ => lookAt symbols id
  | _ => .ok ()

/-- Looks at the symbols and fields of a function. -/
def lookAtFunction (f : Typed.Function) : Except Trap Unit := do
  f.params.forM (lookAt symbols)
  f.body.stmts.forM (lookAtStmt symbols)
  f.body.exprs.forM (lookAtExpr symbols)

/-- Looks whether the symbol of a declaration is that of the declaration, and at what is in it. -/
def lookAtDecl (d : Typed.Decl) : Except Trap Unit := do
  let symbol ← symbolAt symbols d.symbol
  if Typed.Decl.Denotes symbol d then
    match d with
    | .function f => lookAtFunction symbols f
    | _ => .ok ()
  else .error (.declaration d.symbol)

-- without its symbol a declaration would trap
example : lookAtDecl [] (.enum 0 .nowhere) = .error (.symbol 0) := rfl

/-! ### All of it is there -/

variable {symbols}

theorem forM_eq_ok {α : Type} {f : α → Except Trap Unit} {l : List α} (h : ∀ a ∈ l, f a = .ok ()) :
    l.forM f = .ok () := by
  induction l with
  | nil => rfl
  | cons a l ih =>
    obtain ⟨ha, hl⟩ := List.forall_mem_cons.mp h
    rw [List.forM_eq_forM, List.forM_cons, ha]
    exact ih hl

theorem lookAt_eq_ok {id : SymbolId} {symbol : Symbol} (h : symbols[id]? = some symbol) :
    lookAt symbols id = .ok () := by
  rw [lookAt, symbolAt_eq_ok h]
  rfl

theorem lookAtExpr_eq_ok {e : Typed.Expr} (h : e.WellTyped symbols) :
    lookAtExpr symbols e = .ok () := by
  cases h with
  | load _ hsymbol _ | invoke _ hsymbol _ _ _ => exact lookAt_eq_ok hsymbol
  | field _ _ hstruct hfield _ =>
    simp only [lookAtExpr, hstruct, fieldAt, hfield]
    rfl
  | _ => rfl

theorem lookAtStmt_eq_ok {returnType : Ty} {inLoop : Bool} {s : Typed.Stmt}
    (h : s.WellTyped symbols returnType inLoop) : lookAtStmt symbols s = .ok () := by
  cases h with
  | binding _ hsymbol _ _ _ => exact lookAt_eq_ok hsymbol
  | _ => rfl

theorem lookAtFunction_eq_ok {f : Typed.Function} {signature : Signature}
    (h : f.WellTyped symbols signature) : lookAtFunction symbols f = .ok () := by
  have hparams : f.params.forM (lookAt symbols) = .ok () := by
    refine forM_eq_ok fun id hid => ?_
    obtain ⟨i, hi, rfl⟩ := List.getElem_of_mem hid
    have hall := List.forall₂_iff_get.mp h.params
    obtain ⟨_, hsymbol, -⟩ := hall.2 i hi (hall.1 ▸ hi)
    exact lookAt_eq_ok hsymbol
  have hstmts : f.body.stmts.forM (lookAtStmt symbols) = .ok () := by
    refine forM_eq_ok fun s hs => ?_
    obtain ⟨_, hwell⟩ := h.body.of_mem_stmts hs
    exact lookAtStmt_eq_ok hwell
  have hexprs : f.body.exprs.forM (lookAtExpr symbols) = .ok () :=
    forM_eq_ok fun e he => lookAtExpr_eq_ok (h.body.of_mem_exprs he)
  rw [lookAtFunction, hparams, hstmts, hexprs]
  rfl

end Guarded

theorem Places.denotes {tops : List TopLevel} {p : Typed.Program} (h : Places tops p)
    {d : Typed.Decl} (hd : d ∈ p.decls) :
    ∃ symbol, p.symbols[d.symbol]? = some symbol ∧ Typed.Decl.Denotes symbol d := by
  obtain ⟨i, hi, rfl⟩ := List.getElem_of_mem hd
  obtain ⟨_, htop, hchecks⟩ := h.top_of_decl (List.getElem?_eq_getElem hi)
  obtain ⟨symbols, hpopulate, hextends⟩ := h.symbols
  obtain ⟨symbol, hsymbol, his⟩ := Declarations.symbol_of_decl hpopulate htop
  refine ⟨symbol, ?_⟩
  generalize p.decls[i] = d at hchecks
  cases hchecks with
  | struct decl | enum _ => exact ⟨hextends.getElem? hsymbol, his.kind_eq⟩
  | function _ hid hname =>
    refine ⟨?_, his.kind_eq, his.name_eq.trans hname.symm⟩
    rw [Typed.Decl.symbol, hid]
    exact hextends.getElem? hsymbol

section Accepted

variable {keepGoing : Bool} {trees : List SyntaxTree} {p : Typed.Program}

/-- All that lowering reads of an accepted program is in its table. -/
theorem Guarded.lookAtDecls_eq_ok (h : (checkProgram keepGoing trees).program = some p) :
    p.decls.forM (lookAtDecl p.symbols) = .ok () := by
  refine forM_eq_ok fun d hd => ?_
  obtain ⟨_, hsymbol, hdenotes⟩ := (accepted_places h).denotes hd
  simp only [lookAtDecl, symbolAt_eq_ok hsymbol, SymbolTable.symbolAt_eq hsymbol, bind,
    Except.bind, if_pos hdenotes]
  cases d with
  | function f =>
    obtain ⟨_, hf⟩ := (accepted_wellTyped h).2 f hd
    exact lookAtFunction_eq_ok hf
  | _ => rfl

/-- Symbols that come after those of an accepted program do not change what it is lowered to. -/
theorem accepted_lower_append (h : (checkProgram keepGoing trees).program = some p)
    (more : SymbolTable) (name : String) :
    ({ p with symbols := p.symbols ++ more } : Typed.Program).lower name = p.lower name := by
  have happend : p.symbols <+: p.symbols ++ more := ⟨more, rfl⟩
  have hdecl : ∀ d ∈ p.decls, ∀ m,
      Lowering.addDecl (p.symbols ++ more) m d = Lowering.addDecl p.symbols m d := by
    intro d hd m
    obtain ⟨symbol, hsymbol, -⟩ := (accepted_places h).denotes hd
    cases d with
    | struct id _ =>
      have hsymbol : p.symbols[id]? = some symbol := hsymbol
      simp only [Lowering.addDecl, SymbolTable.symbolAt_eq hsymbol,
        SymbolTable.symbolAt_eq_of_isPrefix happend hsymbol]
    | enum => rfl
    | function f =>
      obtain ⟨_, hf⟩ := (accepted_wellTyped h).2 f hd
      exact Lowering.addFunction_eq happend m hf
  have hall : ∀ (decls : List Typed.Decl) (m : IR.Module), (∀ d ∈ decls, d ∈ p.decls) →
      decls.foldlM (Lowering.addDecl (p.symbols ++ more)) m =
        decls.foldlM (Lowering.addDecl p.symbols) m := by
    intro decls
    induction decls with
    | nil => exact fun _ _ => rfl
    | cons d _ ih =>
      intro m hmem
      obtain ⟨hd, hdecls⟩ := List.forall_mem_cons.mp hmem
      rw [List.foldlM_cons, List.foldlM_cons, hdecl d hd m]
      exact bind_congr fun m' => ih m' hdecls
  exact hall p.decls _ fun _ hd => hd

end Accepted

end Laye
