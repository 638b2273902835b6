import Laye.Proofs.Passes.Expression

/-!
# The pass over written types

`Guarded.resolve` turns a written type into a type as `TypeExpr.resolve` does. What declared names
mean is given by `Guarded.Names`, which may change a state of its own. `Guarded.Names.Rules` says
how steps over such names can be put together, for any way of comparing a step with what it should
come to, and `Guarded.Names.Rules.resolve` follows. Inside a function names are looked up in the
scopes, and nothing is changed (`Guarded.runs_resolve`). -/

namespace Laye

open Step (report stop look Runs)

namespace Guarded

variable {S : Type} [Logs S]

/-- The type of a built-in keyword. -/
def resolveBuiltin (keyword : String) (span : Span) : Step S Ty :=
  match Builtin.ofKeyword keyword with
  | .type ty => pure ty
  | .unsupportedWidth keyword bits => do
    report ⟨span, .unsupportedWidth keyword bits⟩
    stop
  | .unknown => do
    report ⟨span, .unknownBuiltin keyword⟩
    stop

/-- Elements must have a value. -/
def nonVoid (element : TypeExpr) (ty : Ty) : Step S Ty :=
  if ty.isVoid then do
    report ⟨element.span, .voidElement⟩
    stop
  else pure ty

omit [Logs S] in
/-- What declared type names mean, where that is looked up in a table. -/
structure Names (S : Type) where
  isStruct : String → Except Trap Bool
  resolve : Ident → Step S Ty

/-- The struct that a written type names, if it is a name of one. -/
def namedStruct? (names : Names S) : TypeExpr → Except Trap (Option String)
  | .named ident => do
    if ← names.isStruct ident.name then .ok (some ident.name) else .ok none
  | _ => .ok none

/-- The type that a written type stands for. -/
def resolve (names : Names S) : TypeExpr → Step S Ty
  | .builtin keyword span => resolveBuiltin keyword span
  | .named ident => names.resolve ident
  | .pointer element access _ => do
    let ty ← behind element fun _ => resolve names element
    pure (.pointerTo ty access)
  | .buffer element access _ => do
    let ty ← behind element fun _ => resolve names element
    let ty ← nonVoid element ty
    pure (.bufferOf ty access)
  | .slice element access _ => do
    let ty ← behind element fun _ => resolve names element
    let ty ← nonVoid element ty
    pure (.sliceOf ty access)
  | .array element capacity access span => do
    let ty ← resolve names element
    let ty ← nonVoid element ty
    if capacity = 0 then do
      report ⟨span, .emptyArray⟩
      stop
    else pure (.array ty capacity access)
where
  /-- An element behind indirection: a struct by name, or else what it resolves to. -/
  behind (element : TypeExpr) (resolved : Unit → Step S Ty) : Step S Ty := do
    match ← look (namedStruct? names element) with
    | some name => pure (.structRef name)
    | none => resolved ()

/-! ### What it comes to -/

theorem runs_resolveBuiltin (keyword : String) (span : Span) :
    Runs (S := S) (resolveBuiltin keyword span) (TypeExpr.resolveBuiltin keyword span) := by
  unfold resolveBuiltin TypeExpr.resolveBuiltin
  cases Builtin.ofKeyword keyword with
  | type _ => exact .pure _
  | _ => exact .refused _

theorem runs_nonVoid (element : TypeExpr) (ty : Ty) :
    Runs (S := S) (nonVoid element ty) (TypeExpr.nonVoid element ty) := by
  unfold nonVoid TypeExpr.nonVoid
  split
  · exact .refused _
  · exact .pure _

/-- How steps that resolve names are put together: `R` compares a step with what it comes to, as a
function of what the names mean, and holds of the names themselves. -/
structure Names.Rules (names : Names S) (isStruct : String → Bool)
    (R : (α : Type) → Step S α → ((Ident → Except Fault Ty) → Except Fault α) → Prop) : Prop where
  isStruct : ∀ name, names.isStruct name = .ok (isStruct name)
  named : ∀ ident, R Ty (names.resolve ident) fun meaning => meaning ident
  /-- Steps that resolve no names. -/
  runs : ∀ {α : Type} {x : Step S α} {result : Except Fault α}, x.Runs result →
    R α x fun _ => result
  bind : ∀ {α β : Type} {x : Step S α} {f : (Ident → Except Fault Ty) → Except Fault α}
    {next : α → Step S β} {g : α → (Ident → Except Fault Ty) → Except Fault β}, R α x f →
    (∀ a, R β (next a) (g a)) → R β (x >>= next) fun meaning => f meaning >>= fun a => g a meaning

namespace Names.Rules

variable {names : Names S} {isStruct : String → Bool}
  {R : (α : Type) → Step S α → ((Ident → Except Fault Ty) → Except Fault α) → Prop}

theorem pure (h : names.Rules isStruct R) {α : Type} (a : α) : R α (Pure.pure a) fun _ => .ok a :=
  h.runs (.pure a)

theorem refused (h : names.Rules isStruct R) {α : Type} (fault : Fault) :
    R α (report fault >>= fun _ => stop) fun _ => .error fault :=
  h.runs (.refused fault)

theorem namedStruct?_eq_ok (h : names.Rules isStruct R) (meaning : Ident → Except Fault Ty)
    (t : TypeExpr) :
    namedStruct? names t = .ok (TypeExpr.namedStruct? ⟨isStruct, meaning⟩ t) := by
  cases t with
  | named _ =>
    simp only [namedStruct?, TypeExpr.namedStruct?, h.isStruct, Bind.bind, Except.bind]
    split <;> rfl
  | _ => rfl

theorem behind (h : names.Rules isStruct R) {element : TypeExpr} {resolved : Unit → Step S Ty}
    {resolved' : (Ident → Except Fault Ty) → Unit → Except Fault Ty}
    (hresolved : R Ty (resolved ()) fun meaning => resolved' meaning ()) :
    R Ty (resolve.behind names element resolved) fun meaning =>
      TypeExpr.resolve.behind ⟨isStruct, meaning⟩ element (resolved' meaning) := by
  -- which names are structs does not depend on what they mean
  have hstruct : ∀ meaning, TypeExpr.namedStruct? ⟨isStruct, meaning⟩ element =
      TypeExpr.namedStruct? ⟨isStruct, fun _ => .ok .void⟩ element := fun _ => by
    cases element <;> rfl
  unfold resolve.behind TypeExpr.resolve.behind
  simp only [h.namedStruct?_eq_ok (fun _ => .ok .void), hstruct]
  cases TypeExpr.namedStruct? ⟨isStruct, fun _ => .ok .void⟩ element with
  | some _ => exact h.pure _
  | none => exact hresolved

/-- A written type comes to what it stands for. -/
theorem resolve (h : names.Rules isStruct R) (t : TypeExpr) :
    R Ty (Guarded.resolve names t) fun meaning => t.resolve ⟨isStruct, meaning⟩ := by
  induction t with
  | builtin keyword span => exact h.runs (runs_resolveBuiltin keyword span)
  | named ident => exact h.named ident
  | pointer _ _ _ ih => exact h.bind (h.behind ih) fun _ => h.pure _
  | buffer element access span ih | slice _ _ _ ih =>
    exact h.bind (h.behind ih) fun _ => h.bind (h.runs (runs_nonVoid _ _)) fun _ => h.pure _
  | array _ _ _ _ ih =>
    refine h.bind ih fun _ => h.bind (h.runs (runs_nonVoid _ _)) fun _ => ?_
    split
    · exact h.refused _
    · exact h.pure _

end Names.Rules

/-! ### Inside a function -/

/-- What type names mean inside a function. -/
def typeNames (ctx : Context) : Names S where
  isStruct name :=
    match ctx.scopes.lookup name with
    | some id => do
      let symbol ← symbolAt ctx.symbols id
      .ok (symbol.kind = .struct)
    | none => .ok false
  resolve ident :=
    match ctx.scopes.lookup ident.name with
    | none => do
      report ⟨ident.span, .unknownType ident.name⟩
      stop
    | some id => do
      let symbol ← look (symbolAt ctx.symbols id)
      if symbol.kind.isType then pure symbol.ty
      else do
        report ⟨ident.span, .notAType ident.name⟩
        stop

theorem typeNames_rules {ctx : Context} (hctx : ctx.Sound) :
    (typeNames (S := S) ctx).Rules ctx.typeNames.isStruct
      fun _ x f => x.Runs (f ctx.typeNames.resolve) where
  isStruct name := by
    simp only [typeNames, Context.typeNames]
    cases hid : ctx.scopes.lookup name with
    | none => rfl
    | some _ =>
      simp only [symbolAt_lookup hctx hid]
      rfl
  named ident := by
    simp only [typeNames, Context.typeNames]
    cases hid : ctx.scopes.lookup ident.name with
    | none => exact .refused _
    | some _ =>
      refine .look_bind (symbolAt_lookup hctx hid) ?_
      simp only
      split
      · exact .pure _
      · exact .refused _
  runs h := h
  bind h hnext := h.bind fun a _ => hnext a

/-- Inside a function a written type comes to what it stands for. -/
theorem runs_resolve {ctx : Context} (hctx : ctx.Sound) (t : TypeExpr) :
    Runs (S := S) (resolve (typeNames ctx) t) (t.resolve ctx.typeNames) :=
  (typeNames_rules hctx).resolve t

end Guarded

end Laye
