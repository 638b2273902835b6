import Laye.Proofs.Typing.Expansion
import Laye.Syntax.Plain

/-!
# Recursive structs

A unit is refused for a recursive struct only while the types of its declarations are resolved. The
rules for expressions and statements never blame one (`Expr.not_blames_check`,
`Stmt.spares_check`), for inside a function the name of a struct stands for a type that is known.

So the refusal is reported only for a struct whose fields expand it again, and a unit with such a
struct is never accepted. Where no array stands behind a pointer, buffer or slice, such a struct
embeds itself. With one, it may not: `checkProgram_hoard` is a unit that is refused although no
struct in it embeds any.
-/

namespace Laye

open Declarations (ofTrees)

variable {name : String}

/-! ### Expressions -/

namespace Typed.Expr

@[simp] theorem not_blames_fault {α : Type} {e : Expr} {problem : Problem} :
    Blames name (e.fault problem : Except Fault α) ↔ problem = .recursiveType name :=
  blames_error

theorem literalProblem?_ne {magnitude : Nat} {negative : Bool} {target : Ty} :
    literalProblem? magnitude negative target ≠ some (.recursiveType name) := by
  unfold literalProblem?
  split
  · simp
  · split
    · simp
    · simp only
      split <;> simp

@[simp] theorem not_blames_literalAs (e : Expr) (target : Ty) :
    ¬ Blames name (e.literalAs target) := by
  unfold literalAs
  split
  · split
    · rename_i _ hproblem
      rw [not_blames_fault]
      rintro rfl
      exact literalProblem?_ne hproblem
    · simp
  · simp

@[simp] theorem not_blames_convertTo (e : Expr) (target : Ty) :
    ¬ Blames name (e.convertTo target) := by
  unfold convertTo
  split <;> simp

@[simp] theorem not_blames_withDefaultType (e : Expr) : ¬ Blames name e.withDefaultType := by
  unfold withDefaultType
  split <;> simp

@[simp] theorem not_blames_promoted (e : Expr) : ¬ Blames name e.promoted := by
  unfold promoted
  split
  · simp
  · split <;> simp
  · split <;> simp
  · simp
  · simp

@[simp] theorem not_blames_toFloat (e : Expr) : ¬ Blames name e.toFloat := by
  unfold toFloat
  split <;> simp

theorem commonType_ne {left right : Ty} : commonType left right ≠ .error (.recursiveType name) := by
  unfold commonType
  split
  · simp
  · split
    · split
      · simp
      · simp
      · simp
      · split
        · simp
        · split <;> simp
    · simp

@[simp] theorem not_blames_unify (left right : Expr) : ¬ Blames name (left.unify right) := by
  have hconcrete : ¬ Blames name (left.unifyConcrete right) := by
    unfold unifyConcrete
    split
    · simp
    · rename_i _ hproblem
      rw [blames_error]
      rintro rfl
      exact commonType_ne hproblem
  unfold unify
  split
  · simp
  · split
    · simp
    · split <;> simp [unify.notNumeric]
    · split <;> simp [unify.notNumeric]
    · split
      · simp [unify.notNumeric]
      · exact hconcrete

end Typed.Expr

namespace Typing

variable {ctx : Context}

@[simp] theorem not_blames_name (ident : Ident) : ¬ Blames name (Typing.name ctx ident) := by
  unfold Typing.name
  split
  · simp
  · simp only
    split <;> simp

@[simp] theorem not_blames_arguments (tys : List Ty) (args : List Typed.Expr) :
    ¬ Blames name (arguments tys args) := by
  induction args generalizing tys with
  | nil => cases tys <;> simp [arguments]
  | cons _ _ ih => cases tys <;> simp [arguments, ih]

theorem argumentCountProblem?_ne {function : String} {signature : Signature} {given : Nat} :
    argumentCountProblem? function signature given ≠ some (.recursiveType name) := by
  unfold argumentCountProblem?
  simp only
  split
  · split <;> simp
  · split <;> simp

@[simp] theorem not_blames_invoke (target : Expr) (args : List Typed.Expr) (span : Span) :
    ¬ Blames name (invoke ctx target args span) := by
  unfold invoke
  split
  · split
    · simp
    · split
      · rename_i _ hproblem
        rw [blames_error]
        rintro rfl
        exact argumentCountProblem?_ne hproblem
      · simp
  · simp

@[simp] theorem not_blames_unary (op : UnaryOp) (value : Typed.Expr) (span : Span) :
    ¬ Blames name (unary ctx op value span) := by
  cases op with
  | neg =>
    show ¬ Blames name (negation value span)
    unfold negation
    split
    · simp
    · simp
    · split <;> simp
  | not => simp [unary, logicalNot]
  | bitNot =>
    simp only [unary, complement, blames_bind, Typed.Expr.not_blames_withDefaultType, false_or,
      not_exists, not_and]
    intro converted _
    split <;> simp
  | addressOf =>
    simp only [unary, addressOf]
    split <;> simp
  | dereference =>
    simp only [unary, dereference]
    split <;> simp

@[simp] theorem not_blames_truthOperands (left right : Typed.Expr) :
    ¬ Blames name (truthOperands left right) := by
  simp [truthOperands]

@[simp] theorem not_blames_comparisonOperands (left right : Typed.Expr) :
    ¬ Blames name (comparisonOperands left right) := by
  unfold comparisonOperands
  split
  · simp
  · split <;> simp

@[simp] theorem not_blames_binary (op : BinaryOp) (left right : Typed.Expr) (span : Span) :
    ¬ Blames name (binary op left right span) := by
  unfold binary
  split
  · simp
  · split
    · simp only [blames_bind, not_blames_comparisonOperands, false_or, not_exists, not_and]
      intro operands _
      split <;> simp
    · simp only [blames_bind, Typed.Expr.not_blames_unify, false_or, not_exists, not_and]
      intro operands _
      split <;> simp

@[simp] theorem not_blames_index (target place : Typed.Expr) (span : Span) :
    ¬ Blames name (index ctx target place span) := by
  have hplace : ¬ Blames name (indexOperand place) := by
    unfold indexOperand
    split
    · simp
    · split <;> simp
  unfold index
  split
  · simp
  · simp [hplace]

@[simp] theorem not_blames_field (target : Typed.Expr) (ident : Ident) (span : Span) :
    ¬ Blames name (field ctx target ident span) := by
  unfold field
  simp only
  split
  · split <;> simp
  · simp

theorem not_blames_enumVariant? {target : Expr} {ident : Ident} {span : Span}
    {variant : Except Fault Typed.Expr} (h : enumVariant? ctx target ident span = some variant) :
    ¬ Blames name variant := by
  unfold enumVariant? at h
  split at h
  · split at h
    · cases h
    · split at h
      · split at h <;> cases h <;> simp
      · cases h
  · cases h

end Typing

namespace Expr

mutual

theorem not_blames_check (ctx : Context) : (e : Expr) → ¬ Blames name (e.check ctx)
  | .integer _ _ _ | .float _ _ | .bool _ _ | .string _ _ => by simp [check]
  | .name _ => by simp [check]
  | .invoke _ args _ => by simp [check, not_blames_checkAll ctx args]
  | .unary _ operand _ => by simp [check, not_blames_check ctx operand]
  | .binary _ left right _ => by
    simp [check, not_blames_check ctx left, not_blames_check ctx right]
  | .index target place _ => by
    simp [check, not_blames_check ctx target, not_blames_check ctx place]
  | .field target _ _ => by
    unfold check
    split
    · rename_i _ hvariant
      exact Typing.not_blames_enumVariant? hvariant
    · simp [not_blames_check ctx target]

theorem not_blames_checkAll (ctx : Context) : (es : List Expr) → ¬ Blames name (checkAll ctx es)
  | [] => by simp [checkAll]
  | e :: es => by simp [checkAll, not_blames_check ctx e, not_blames_checkAll ctx es]

end

end Expr

namespace Typing

variable {ctx : Context}

theorem not_blames_typeNames (ident : Ident) : ¬ Blames name (ctx.typeNames.resolve ident) := by
  simp only [Context.typeNames]
  split
  · simp
  · split <;> simp

@[simp] theorem not_blames_resolve (t : TypeExpr) : ¬ Blames name (t.resolve ctx.typeNames) := by
  intro h
  obtain ⟨ident, -, hident⟩ :=
    TypeExpr.expands_of_blames (fun ident hident => absurd hident (not_blames_typeNames ident)) h
  exact not_blames_typeNames ident hident

@[simp] theorem not_blames_exprAt (ty : Ty) (e : Expr) : ¬ Blames name (exprAt ctx ty e) := by
  simp [exprAt, Expr.not_blames_check]

@[simp] theorem not_blames_exprAlone (e : Expr) : ¬ Blames name (exprAlone ctx e) := by
  simp [exprAlone, Expr.not_blames_check]

theorem not_blames_optional {check : Expr → Except Fault Typed.Expr}
    (hcheck : ∀ e, ¬ Blames name (check e)) (value : Option Expr) :
    ¬ Blames name (optional check value) := by
  cases value <;> simp [optional, hcheck]

theorem not_blames_bindingParts (ty : Option TypeExpr) (ident : Ident) (value : Option Expr)
    (span : Span) : ¬ Blames name (bindingParts ctx ty ident value span) := by
  have hlast : ∀ part : Ty × Option Typed.Expr, ¬ Blames name
      (if part.1.isVoid then .error ⟨span, .voidBinding ident.name⟩ else .ok part) := by
    intro part
    split <;> simp
  unfold bindingParts
  cases ty with
  | some _ => simp [hlast, not_blames_optional (not_blames_exprAt _)]
  | none => cases value <;> simp [hlast]

theorem not_blames_returnValue (value : Option Expr) (span : Span) :
    ¬ Blames name (returnValue ctx value span) := by
  unfold returnValue
  split
  · simp
  · split <;> simp

theorem not_blames_assignment (target value : Expr) :
    ¬ Blames name (assignment ctx target value) := by
  simp only [assignment, blames_bind, Expr.not_blames_check, false_or, not_exists, not_and]
  intro typed _ h
  have h := blames_unless h (by simp)
  split at h <;> simp at h

theorem not_blames_loopControl (inLoop : Bool) (keyword : String) (span : Span) :
    ¬ Blames name (loopControl inLoop keyword span) := by
  unfold loopControl
  split <;> simp

end Typing

/-! ### Statements -/

namespace Check

variable {α β : Type}

/-- The step is never refused for a recursive struct. -/
def Spares (name : String) (step : Check α) : Prop :=
  ∀ s refusal, step s = .error refusal → refusal.fault.problem ≠ .recursiveType name

namespace Spares

theorem pure (a : α) : Spares name (Pure.pure a) := by
  rintro s refusal ⟨⟩

variable {next : α → Check β}

/-- Steps that spare a name spare it one after another. -/
theorem bind {step : Check α} (hstep : step.Spares name) (hnext : ∀ a, (next a).Spares name) :
    (step >>= next).Spares name := by
  intro s refusal h
  change (step s >>= fun r => next r.1 r.2) = .error refusal at h
  cases hs : step s with
  | error _ =>
    rw [hs] at h
    cases h
    exact hstep s _ hs
  | ok r =>
    rw [hs] at h
    exact hnext r.1 r.2 refusal h

theorem attempt {result : Except Fault α} (hresult : ¬ Blames name result) :
    (Check.attempt result).Spares name := by
  intro s refusal h
  cases result with
  | ok a => cases h
  | error fault =>
    cases h
    rintro hproblem
    exact hresult ⟨fault.span, by rw [← hproblem]⟩

theorem context : Check.context.Spares name := by
  rintro s refusal ⟨⟩

theorem warn (span : Span) : (Check.warn span).Spares name := by
  rintro s refusal ⟨⟩

theorem inScope {step : Check α} (function : Option SymbolId) (hstep : step.Spares name) :
    (Check.inScope function step).Spares name := by
  have hopen : (openScope function).Spares name := by
    rintro s refusal ⟨⟩
  have hclose : closeScope.Spares name := by
    rintro s refusal ⟨⟩
  exact hopen.bind fun _ => hstep.bind fun a => hclose.bind fun _ => .pure a

theorem declare (ident : Ident) (ty : Ty) {duplicate : Problem}
    (hduplicate : duplicate ≠ .recursiveType name) :
    (Check.declare ident ty duplicate).Spares name := by
  intro s refusal h
  simp only [Check.declare] at h
  split at h
  · cases h
  · cases h
    exact hduplicate

theorem attempt_bind {f : Context → Except Fault α} (hf : ∀ ctx, ¬ Blames name (f ctx))
    (hnext : ∀ a, (next a).Spares name) :
    (Check.context >>= fun ctx => Check.attempt (f ctx) >>= next).Spares name :=
  context.bind fun ctx => (attempt (hf ctx)).bind hnext

end Spares

end Check

open Check (Spares)

namespace Stmt

mutual

/-- No statement is refused for a recursive struct. -/
theorem spares_check : (inLoop : Bool) → (stmt : Stmt) → (stmt.check inLoop).Spares name
  | inLoop, .block stmts span => by
    exact ((spares_checkBlock inLoop stmts).inScope none).bind fun _ => .pure _
  | inLoop, .binding ty ident value span =>
    .attempt_bind (fun _ => Typing.not_blames_bindingParts ty ident value span) fun (ty, _) =>
      (Spares.declare ident ty (by simp)).bind fun _ => .pure _
  | inLoop, .expression value =>
    .attempt_bind (fun _ => Typing.not_blames_exprAlone value) fun _ => .pure _
  | inLoop, .ret value span =>
    .attempt_bind (fun _ => Typing.not_blames_returnValue value span) fun _ => .pure _
  | inLoop, .yield value span =>
    .attempt_bind
      (fun _ => Typing.not_blames_optional Typing.not_blames_exprAlone value) fun _ => .pure _
  | inLoop, .assign target value span =>
    .attempt_bind (fun _ => Typing.not_blames_assignment target value) fun (_, _) => .pure _
  | inLoop, .conditional condition body elseBody _ | inLoop, .whileLoop condition body elseBody _ =>
    .attempt_bind (fun _ => Typing.not_blames_exprAt .bool condition) fun _ =>
      ((spares_check _ body).inScope none).bind fun _ =>
        (spares_checkElse inLoop elseBody).bind fun _ => .pure _
  | inLoop, .breakLoop span | inLoop, .continueLoop span =>
    (Spares.attempt (Typing.not_blames_loopControl inLoop _ span)).bind fun _ => .pure _

theorem spares_checkBlock : (inLoop : Bool) → (stmts : List Stmt) →
    (checkBlock inLoop stmts).Spares name
  | _, [] => by
    exact .pure _
  | inLoop, stmt :: rest => by
    refine (spares_check inLoop stmt).bind fun stmt' => ?_
    split
    · split
      · exact .pure _
      · exact (Spares.warn _).bind fun _ => (spares_checkAll inLoop rest).bind fun _ => .pure _
    · exact (spares_checkBlock inLoop rest).bind fun _ => .pure _

theorem spares_checkAll : (inLoop : Bool) → (stmts : List Stmt) →
    (checkAll inLoop stmts).Spares name
  | _, [] => by
    exact .pure _
  | inLoop, stmt :: rest =>
    (spares_check inLoop stmt).bind fun _ => (spares_checkAll inLoop rest).bind fun _ =>
      .pure _

theorem spares_checkElse : (inLoop : Bool) → (stmt : Option Stmt) →
    (checkElse inLoop stmt).Spares name
  | _, none => by
    exact .pure _
  | inLoop, some stmt => ((spares_check inLoop stmt).inScope none).bind fun _ => .pure _

end

end Stmt

/-! ### Declarations -/

namespace Declarations

variable {decls : List TopLevel}

theorem not_blames_libraryOf {modifiers : List Modifier} {seen : Option String} :
    ¬ Blames name (libraryOf modifiers seen) := by
  induction modifiers generalizing seen with
  | nil => simp [libraryOf]
  | cons modifier _ ih =>
    cases modifier with
    | convention _ _ => exact ih
    | foreign _ _ =>
      unfold libraryOf
      split
      · simp
      · exact ih

theorem not_blames_declareFrom {next : SymbolId} {scopes : ScopeStack} :
    ¬ Blames name (declareFrom next decls scopes) := by
  induction decls generalizing next scopes with
  | nil => simp [declareFrom]
  | cons _ _ ih =>
    unfold declareFrom
    split
    · exact ih
    · simp

end Declarations

namespace Typing

theorem spares_params (given : List (Param × Ty)) : (params given).Spares name := by
  induction given with
  | nil => exact .pure _
  | cons _ _ ih =>
    exact (Spares.declare _ _ (by simp)).bind fun _ => ih.bind fun _ => .pure _

theorem spares_body (ty : Ty) (b : FunctionBody) : (body ty b).Spares name := by
  cases b with
  | empty _ => exact .pure _
  | block stmts _ =>
    exact ((Stmt.spares_checkBlock false stmts).inScope none).bind fun _ => .pure _
  | expression value => exact .attempt_bind (fun _ => not_blames_exprAt ty value) fun _ => .pure _

theorem spares_function (id : SymbolId) (decl : FunctionDecl) :
    (function id decl).Spares name := by
  refine (Spares.attempt Declarations.not_blames_libraryOf).bind fun library =>
    Spares.context.bind fun ctx => ?_
  split
  · exact .attempt (by simp)
  · exact (((spares_params _).bind fun _ => (spares_body _ _).bind fun _ => .pure _).inScope
      (some id)).bind fun (_, _) => .pure _

theorem spares_decl (id : SymbolId) (top : TopLevel) : (decl id top).Spares name := by
  cases top with
  | struct decl | enum _ => exact .pure _
  | function decl => exact (spares_function id decl).bind fun _ => .pure _

theorem not_mem_decls (keepGoing : Bool) (span : Span) {id : SymbolId} {ctx : Context}
    {tops : List TopLevel} :
    Finding.fault ⟨span, .recursiveType name⟩ ∉ (decls keepGoing id ctx tops).1 := by
  induction tops generalizing id ctx with
  | nil => simp [decls]
  | cons first _ ih =>
    unfold decls
    cases hfirst : decl id first ⟨ctx, []⟩ with
    | error refusal =>
      have hspares : refusal.fault.problem ≠ .recursiveType name :=
        spares_decl id first _ _ hfirst
      simp only [Refusal.findings, List.mem_append, List.mem_map, reduceCtorEq, and_false,
        exists_false, List.mem_singleton, Finding.fault.injEq, false_or, not_or]
      refine ⟨?_, ?_⟩
      · rintro hfault
        exact hspares (by rw [← hfault])
      · split
        · exact ih
        · simp
    | ok _ => simpa using ih

end Typing

namespace Declarations

theorem not_expands_of_populate {decls : List TopLevel} {symbols : SymbolTable}
    (hnodup : (decls.map (·.name.name)).Nodup) (hpopulate : populate decls = .ok symbols) :
    ¬ Relation.TransGen (Expands decls) name name :=
  fun h => Nat.lt_irrefl _ (rank_lt_of_transGen hnodup hpopulate h)

end Declarations

/-- A struct is reported as recursive only if its fields expand it again, over any number of
structs. That it embeds itself follows where no array stands behind a pointer, buffer or slice. A
unit with a struct that expands itself is never accepted, whatever it is refused for. -/
theorem checkProgram_recursion (keepGoing : Bool) (trees : List SyntaxTree) (name : String) :
    ((∃ span, .fault ⟨span, .recursiveType name⟩ ∈ (checkProgram keepGoing trees).findings) →
      Relation.TransGen (Declarations.Expands (ofTrees trees)) name name ∧
      ((∀ struct, .struct struct ∈ ofTrees trees →
          ∀ field ∈ struct.fields, field.ty.hidesArray = false) →
        Relation.TransGen (Declarations.Embeds (ofTrees trees)) name name)) ∧
    (Relation.TransGen (Declarations.Expands (ofTrees trees)) name name →
      (checkProgram keepGoing trees).program = none) := by
  cases hdeclare : Declarations.declare (ofTrees trees) with
  | error fault =>
    simp only [checkProgram, hdeclare]
    refine ⟨?_, fun _ => trivial⟩
    rintro ⟨span, hfault⟩
    cases List.mem_singleton.mp hfault
    exact absurd ⟨span, hdeclare⟩ Declarations.not_blames_declareFrom
  | ok globals =>
    have hnodup := (Declarations.declare_eq_ok hdeclare).2.1
    cases hpopulate : Declarations.populate (ofTrees trees) with
    | error fault =>
      simp only [checkProgram, hdeclare, hpopulate]
      refine ⟨?_, fun _ => trivial⟩
      rintro ⟨span, hfault⟩
      cases List.mem_singleton.mp hfault
      have hcycle := Declarations.expands_of_blames hnodup ⟨span, hpopulate⟩
      exact ⟨hcycle, fun harrays => hcycle.lift id fun _ _ h => h.embeds harrays⟩
    | ok symbols =>
      simp only [checkProgram, hdeclare, hpopulate]
      refine ⟨?_, fun h => absurd h (Declarations.not_expands_of_populate hnodup hpopulate)⟩
      rintro ⟨span, hfault⟩
      exact absurd hfault (Typing.not_mem_decls keepGoing span)

open Plain in
/-- `struct Tree { Forest grove; } struct Forest { Tree[2] trees; }` -/
def SyntaxTree.thicket : SyntaxTree :=
  { sourceName := "thicket"
    decls := [struct "Tree" [param (named "Forest") "grove"],
      struct "Forest" [param (array (named "Tree") 2) "trees"]] }

theorem checkProgram_thicket :
    Relation.TransGen (Declarations.Embeds (ofTrees [.thicket])) "Tree" "Tree" ∧
    (checkProgram false [.thicket]).program = none := by
  obtain ⟨hreported, hrefused⟩ := checkProgram_recursion false [.thicket] "Tree"
  obtain ⟨hexpands, hembeds⟩ := hreported ⟨.nowhere, .head _⟩
  refine ⟨hembeds ?_, hrefused hexpands⟩
  simp [ofTrees, SyntaxTree.thicket, Plain.struct, Plain.param, Plain.named,
    Plain.array, TypeExpr.hidesArray]

open Plain in
/-- `struct Hoard { Hoard[4]* rest; }` -/
def SyntaxTree.hoard : SyntaxTree :=
  { sourceName := "hoard"
    decls := [struct "Hoard" [param (pointer (array (named "Hoard") 4)) "rest"]] }

/-- A struct is reported as recursive although no struct embeds any: it holds itself in an array
behind a pointer. -/
theorem checkProgram_hoard :
    (∃ span, .fault ⟨span, .recursiveType "Hoard"⟩ ∈ (checkProgram false [.hoard]).findings) ∧
    ∀ outer inner, ¬ Declarations.Embeds (ofTrees [.hoard]) outer inner := by
  refine ⟨⟨.nowhere, .head _⟩, ?_⟩
  rintro _ _ ⟨houter, hinner, hfield, hty⟩
  cases List.mem_singleton.mp houter
  cases List.mem_singleton.mp hfield
  exact hty

end Laye
