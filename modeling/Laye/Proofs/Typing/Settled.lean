import Laye.Proofs.Typing.Soundness

/-!
# No literal is left without a type

A literal starts with a type that only says what kind of literal it is. `Typed.Root.containsUntyped`
looks for such a type in a checked file, and `Ty.containsUntyped` looks for one inside a type. Both
find nothing in an accepted program (`accepted_settled`): the types of symbols are settled, and the
rules for well-typed trees leave no room for a node whose type is not, also in dead code.
-/

namespace Laye

/-! ### Types -/

section Types

variable {isStruct : String → Prop}

mutual

theorem Ty.Grounded.containsUntyped : (ty : Ty) → ty.Grounded isStruct → ty.containsUntyped = false
  | .untypedInt _, h | .untypedFloat, h | .untypedBool, h | .untypedString, h => h.elim
  | .array element _ _, h | .pointer element _, h | .buffer element _, h | .slice element _, h => by
    exact Ty.Grounded.containsUntyped element h
  | .function signature, h => Signature.Grounded.containsUntyped signature h
  | .struct _ _ fields, h => Ty.FieldsGrounded.containUntyped fields h.2
  | .union _ _ variants, h => Ty.FieldsGrounded.containUntyped variants h
  | .void, _ | .bool, _ | .rune, _ | .int _, _ | .sizedInt _ _, _ | .float, _ | .sizedFloat _, _
  | .rawptr, _ | .string, _ | .structRef _, _ | .enum _ _, _ | .param _, _ => by
    rfl

theorem Signature.Grounded.containsUntyped : (signature : Signature) →
    signature.Grounded isStruct → Ty.signatureContainsUntyped signature = false
  | ⟨_, _, _, returnType, params, _⟩, h => by
    unfold Ty.signatureContainsUntyped
    rw [Ty.Grounded.containsUntyped returnType h.1, Ty.FieldsGrounded.containUntyped params h.2]
    rfl

theorem Ty.FieldsGrounded.containUntyped : (fields : List (String × Ty)) →
    Ty.FieldsGrounded isStruct fields → Ty.fieldsContainUntyped fields = false
  | [], _ => by
    rfl
  | (_, ty) :: fields, h => by
    unfold Ty.fieldsContainUntyped
    rw [Ty.Grounded.containsUntyped ty h.1, Ty.FieldsGrounded.containUntyped fields h.2]
    rfl

end

end Types

/-! ### Expressions -/

namespace Typed

variable {symbols : SymbolTable}

theorem Expr.anyContainsUntyped_eq_false {es : List Expr} :
    Expr.anyContainsUntyped es = false ↔ ∀ e ∈ es, e.containsUntyped = false := by
  induction es with
  | nil => simp [Expr.anyContainsUntyped]
  | cons e _ ih => simp [Expr.anyContainsUntyped, ih]

theorem Expr.WellTyped.containsUntyped {e : Expr} (hsymbols : symbols.Grounded)
    (h : e.WellTyped symbols) : e.containsUntyped = false := by
  -- the node itself has a settled type, whatever its form
  have hnode : ∀ {e : Expr}, e.WellTyped symbols → e.ty.isUntyped = false :=
    fun h => (h.grounded hsymbols).isUntyped
  induction h with
  | integer span magnitude negative hty => exact hnode (.integer span magnitude negative hty)
  | variant | bool => rfl
  | float span value hty => exact hnode (.float span value hty)
  | string span value hty => exact hnode (.string span value hty)
  | load span hsymbol hkind => exact hnode (.load span hsymbol hkind)
  | cast span hinner hcast hty ih =>
    have hself := hnode (.cast span hinner hcast hty)
    simpa [Expr.containsUntyped, Expr.ty, ih] using hself
  | materialize _ _ _ ih | addressOf _ _ _ ih => simpa [Expr.containsUntyped] using ⟨rfl, ih⟩
  | invoke span hsymbol hsignature hargs hmatch ih =>
    have hself := hnode (.invoke span hsymbol hsignature hargs hmatch)
    have hall := Expr.anyContainsUntyped_eq_false.mpr ih
    simpa [Expr.containsUntyped, Expr.ty, hall] using hself
  | unary _ hoperand _ ih =>
    have hself := hnode hoperand
    simpa [Expr.containsUntyped, Expr.ty, ih] using hself
  | binary span hleft hright hsame haccepts ihleft ihright =>
    have hself := hnode (.binary span hleft hright hsame haccepts)
    simpa [Expr.containsUntyped, Expr.ty, ihleft, ihright] using hself
  | dereference span hinner hpointer ih =>
    have hself := hnode (.dereference span hinner hpointer)
    simpa [Expr.containsUntyped, Expr.ty, ih] using hself
  | index span htarget hi helement hinteger ihtarget ihi =>
    have hself := hnode (.index span htarget hi helement hinteger)
    simpa [Expr.containsUntyped, Expr.ty, ihtarget, ihi] using hself
  | field span htarget hstruct hfield hname ih =>
    have hself := hnode (.field span htarget hstruct hfield hname)
    simpa [Expr.containsUntyped, Expr.ty, ih] using hself

/-! ### Statements and functions -/

theorem Stmt.anyContainsUntyped_eq_false {stmts : List Stmt} :
    Stmt.anyContainsUntyped stmts = false ↔ ∀ stmt ∈ stmts, stmt.containsUntyped = false := by
  induction stmts with
  | nil => simp [Stmt.anyContainsUntyped]
  | cons _ _ ih => simp [Stmt.anyContainsUntyped, ih]

theorem Stmt.optionContainsUntyped_eq_false {value : Option Expr}
    (h : ∀ e, value = some e → e.containsUntyped = false) :
    Stmt.optionContainsUntyped value = false := by
  cases value with
  | none => rfl
  | some e => exact h e rfl

theorem Stmt.WellTyped.containsUntyped {returnType : Ty} {inLoop : Bool} {stmt : Stmt}
    (hsymbols : symbols.Grounded) (h : stmt.WellTyped symbols returnType inLoop) :
    stmt.containsUntyped = false := by
  induction h with
  | block _ _ ih | deadCode _ _ ih => exact anyContainsUntyped_eq_false.mpr ih
  | binding _ _ _ _ hvalue =>
    exact optionContainsUntyped_eq_false fun e he => (hvalue e he).1.containsUntyped hsymbols
  | expression hvalue => exact hvalue.containsUntyped hsymbols
  | @ret _ _ _ hvalue =>
    refine optionContainsUntyped_eq_false fun e he => ?_
    subst he
    exact hvalue.2.1.containsUntyped hsymbols
  | assign _ htarget _ _ hvalue _ =>
    simp [Stmt.containsUntyped, htarget.containsUntyped hsymbols, hvalue.containsUntyped hsymbols]
  | @conditional _ _ _ elseBody _ hcondition _ _ _ ihbody ihelse
  | @whileLoop _ _ _ elseBody _ hcondition _ _ _ ihbody ihelse =>
    cases elseBody with
    | none => simp [Stmt.containsUntyped, hcondition.containsUntyped hsymbols, ihbody]
    | some elseBody =>
      simp [Stmt.containsUntyped, hcondition.containsUntyped hsymbols, ihbody,
        ihelse elseBody rfl]
  | breakLoop _ | continueLoop _ => rfl
  | yield _ hvalue =>
    exact optionContainsUntyped_eq_false fun e he => (hvalue e he).containsUntyped hsymbols

theorem Body.WellTyped.containsUntyped {returnType : Ty} {body : Body} (hsymbols : symbols.Grounded)
    (h : body.WellTyped symbols returnType) : body.containsUntyped = false := by
  cases body with
  | empty => rfl
  | block _ _ =>
    exact Stmt.anyContainsUntyped_eq_false.mpr fun stmt hstmt =>
      (h stmt hstmt).containsUntyped hsymbols
  | expression _ => exact h.1.containsUntyped hsymbols

end Typed

/-- In an accepted program no literal is left without a type, in no file and in the type of no
symbol. -/
theorem accepted_settled {keepGoing : Bool} {trees : List SyntaxTree} {p : Typed.Program}
    (h : (checkProgram keepGoing trees).program = some p) :
    (∀ root ∈ p.roots, root.containsUntyped = false) ∧
      ∀ symbol ∈ p.symbols, symbol.ty.containsUntyped = false := by
  obtain ⟨hsymbols, hfunctions⟩ := accepted_wellTyped h
  constructor
  · intro root hroot
    refine List.any_eq_false.mpr fun f hf => ?_
    obtain ⟨decl, hdecl, hfunction⟩ := List.mem_filterMap.mp hf
    cases decl with
    | function g =>
      cases hfunction
      obtain ⟨signature, hwell⟩ := hfunctions f (List.mem_flatMap.mpr ⟨root, hroot, hdecl⟩)
      simpa using hwell.body.containsUntyped hsymbols
    | struct _ _ | enum _ _ => cases hfunction
  · intro symbol hsymbol
    exact Ty.Grounded.containsUntyped symbol.ty (hsymbols symbol hsymbol)

/-- The literals of the counter, in a binding and as an operand, have types. -/
theorem accepted_settled_counter :
    ∃ p, (checkProgram false [.counter]).program = some p ∧
      (∀ root ∈ p.roots, root.containsUntyped = false) ∧
      ∀ symbol ∈ p.symbols, symbol.ty.containsUntyped = false := by
  have hsome : (checkProgram false [.counter]).program.isSome = true := by decide +kernel
  obtain ⟨p, hp⟩ := Option.isSome_iff_exists.mp hsome
  exact ⟨p, hp, accepted_settled hp⟩

end Laye
