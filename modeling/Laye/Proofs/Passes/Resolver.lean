import Laye.Proofs.Passes.TypeNames
import Laye.Proofs.Typing.Containment

/-!
# Resolving the types of declarations

The names of a unit are declared first (`Guarded.declare`). Then the types of its declarations are
resolved by their places, with two tables: the types found so far, and the declarations whose types
are being resolved. A declaration is resolved once; a later use of its name finds the type in the
table. One that is met again while it is in progress would contain itself, and is reported.

`Declarations.named` has no tables. It resolves a struct again for each field that holds it, and
keeps the structs that are open on a path. `Guarded.runs_populate` says that both come to the same
types, or to the same fault, reported once. What makes it true is that a type in the table does not
depend on what is in progress: its own parts are in the table, and what is in progress is not
(`Resolver.Agrees`). -/

namespace Laye

open Step (report stop look change Runs bind_some)

namespace Guarded

variable {S : Type} [Logs S]

/-! ### Names -/

/-- Enters declarations into the scope, from the id `next` on. -/
def declareFrom (next : SymbolId) : List TopLevel → ScopeStack → Step S ScopeStack
  | [], scopes => pure scopes
  | decl :: decls, scopes =>
    match scopes.add decl.name.name next with
    | some scopes => declareFrom (next + 1) decls scopes
    | none => do
      report ⟨decl.name.span, .duplicateDeclaration decl.name.name⟩
      stop

/-- The global scope of a compilation unit. -/
def declare (decls : List TopLevel) : Step S ScopeStack := declareFrom 0 decls .start

theorem runs_declareFrom (next : SymbolId) (decls : List TopLevel) (scopes : ScopeStack) :
    Runs (S := S) (declareFrom next decls scopes)
      (Declarations.declareFrom next decls scopes) := by
  induction decls generalizing next scopes with
  | nil => exact .pure _
  | cons decl _ ih =>
    unfold declareFrom Declarations.declareFrom
    cases scopes.add decl.name.name next with
    | none => exact .refused _
    | some _ => exact ih _ _

theorem runs_declare (decls : List TopLevel) :
    Runs (S := S) (declare decls) (Declarations.declare decls) :=
  runs_declareFrom 0 decls .start

/-! ### Types of declarations -/

/-- The fields of a struct, after those in `done`. -/
def fieldTypes (names : Names S) (struct : String) :
    List Param → List (String × Ty) → Step S (List (String × Ty))
  | [], done => pure done
  | field :: fields, done =>
    if done.any (·.1 == field.name.name) then do
      report ⟨field.name.span, .duplicateField field.name.name struct⟩
      stop
    else do
      let ty ← resolve names field.ty
      if ty.isVoid then do
        report ⟨field.ty.span, .voidField field.name.name⟩
        stop
      else fieldTypes names struct fields (done ++ [(field.name.name, ty)])

/-- The type of a struct. -/
def structType (names : Names S) (decl : StructDecl) : Step S Ty := do
  let fields ← fieldTypes names decl.name.name decl.fields []
  pure (.struct decl.name.name [] fields)

/-- The variants of an enum, after those in `done`. -/
def variantValues (enum : String) :
    List EnumVariant → Option Nat → List (String × Nat) → Step S (List (String × Nat))
  | [], _, done => pure done
  | variant :: variants, next, done =>
    if done.any (·.1 == variant.name.name) then do
      report ⟨variant.name.span, .duplicateVariant variant.name.name enum⟩
      stop
    else
      match variant.value.or next with
      | none => do
        report ⟨variant.name.span, .variantOverflow variant.name.name⟩
        stop
      | some value =>
        variantValues enum variants
          (if value < Declarations.maxVariant then some (value + 1) else none)
          (done ++ [(variant.name.name, value)])

/-- The type of an enum. -/
def enumType (decl : EnumDecl) : Step S Ty := do
  let variants ← variantValues decl.name.name decl.variants (some 0) []
  pure (.enum decl.name.name variants)

/-- The calling convention among a function's modifiers, given the one seen before them. -/
def conventionOf : List Modifier → Option CallingConvention → Step S (Option CallingConvention)
  | [], seen => pure seen
  | .foreign _ _ :: modifiers, seen => conventionOf modifiers seen
  | .convention convention span :: modifiers, seen =>
    if seen.isSome then do
      report ⟨span, .duplicateConvention⟩
      stop
    else conventionOf modifiers (some convention)

/-- The parameters of a function with their types. -/
def paramTypes (names : Names S) : List Param → Step S (List (String × Ty))
  | [] => pure []
  | param :: params => do
    let ty ← resolve names param.ty
    if ty.isVoid then do
      report ⟨param.ty.span, .voidParameter param.name.name⟩
      stop
    else do
      let rest ← paramTypes names params
      pure ((param.name.name, ty) :: rest)

/-- The type of a function. -/
def functionType (names : Names S) (decl : FunctionDecl) : Step S Ty := do
  let convention ← conventionOf decl.modifiers none
  if decl.varArgs = .laye then do
    report ⟨decl.name.span, .layeVarArgs⟩
    stop
  else do
    let returnType ← resolve names decl.returnType
    let params ← paramTypes names decl.params
    pure (.function ⟨decl.name.name, [], convention.getD .layeNoContext, returnType, params,
      decl.varArgs⟩)

/-- The type of a declaration. -/
def typeOf (names : Names S) : TopLevel → Step S Ty
  | .struct decl => structType names decl
  | .enum decl => enumType decl
  | .function decl => functionType names decl

theorem runs_variantValues (enum : String) (variants : List EnumVariant) (next : Option Nat)
    (done : List (String × Nat)) :
    Runs (S := S) (variantValues enum variants next done)
      (Declarations.variantValues enum variants next done) := by
  induction variants generalizing next done with
  | nil => exact .pure _
  | cons variant _ ih =>
    unfold variantValues Declarations.variantValues
    split
    · exact .refused _
    · cases variant.value.or next with
      | none => exact .refused _
      | some _ => exact ih _ _

theorem runs_enumType (decl : EnumDecl) :
    Runs (S := S) (enumType decl) (Declarations.enumType decl) :=
  (runs_variantValues _ _ _ _).bind fun _ _ => .pure _

theorem runs_conventionOf (modifiers : List Modifier) (seen : Option CallingConvention) :
    Runs (S := S) (conventionOf modifiers seen) (Declarations.conventionOf modifiers seen) := by
  induction modifiers generalizing seen with
  | nil => exact .pure _
  | cons modifier _ ih =>
    cases modifier with
    | foreign _ _ => exact ih seen
    | convention _ _ =>
      unfold conventionOf Declarations.conventionOf
      split
      · exact .refused _
      · exact ih _

namespace Names.Rules

variable {names : Names S} {isStruct : String → Bool}
  {R : (α : Type) → Step S α → ((Ident → Except Fault Ty) → Except Fault α) → Prop}

theorem fieldTypes (h : names.Rules isStruct R) (struct : String) (fields : List Param)
    (done : List (String × Ty)) :
    R _ (Guarded.fieldTypes names struct fields done) fun meaning =>
      Declarations.fieldTypes ⟨isStruct, meaning⟩ struct fields done := by
  induction fields generalizing done with
  | nil => exact h.pure _
  | cons field _ ih =>
    unfold Guarded.fieldTypes Declarations.fieldTypes
    by_cases hdone : done.any (·.1 == field.name.name) = true
    · simp only [if_pos hdone]
      exact h.refused _
    · simp only [if_neg hdone]
      refine h.bind (h.resolve field.ty) fun ty => ?_
      by_cases hvoid : ty.isVoid = true
      · simp only [if_pos hvoid]
        exact h.refused _
      · simp only [if_neg hvoid]
        exact ih _

theorem structType (h : names.Rules isStruct R) (decl : StructDecl) :
    R Ty (Guarded.structType names decl) fun meaning =>
      Declarations.structType ⟨isStruct, meaning⟩ decl :=
  h.bind (h.fieldTypes _ _ _) fun _ => h.pure _

theorem paramTypes (h : names.Rules isStruct R) (params : List Param) :
    R _ (Guarded.paramTypes names params) fun meaning =>
      Declarations.paramTypes ⟨isStruct, meaning⟩ params := by
  induction params with
  | nil => exact h.pure _
  | cons param _ ih =>
    refine h.bind (h.resolve param.ty) fun ty => ?_
    by_cases hvoid : ty.isVoid = true
    · simp only [if_pos hvoid]
      exact h.refused _
    · simp only [if_neg hvoid]
      exact h.bind ih fun _ => h.pure _

theorem functionType (h : names.Rules isStruct R) (decl : FunctionDecl) :
    R Ty (Guarded.functionType names decl) fun meaning =>
      Declarations.functionType ⟨isStruct, meaning⟩ decl := by
  refine h.bind (h.runs (runs_conventionOf _ _)) fun convention => ?_
  by_cases hvarArgs : decl.varArgs = .laye
  · simp only [if_pos hvarArgs]
    exact h.refused _
  · simp only [if_neg hvarArgs]
    exact h.bind (h.resolve _) fun _ => h.bind (h.paramTypes _) fun _ => h.pure _

end Names.Rules

end Guarded

/-! ### Tables -/

/-- What resolving types changes on its way: for each declaration the type that was found for it,
and whether it is being resolved. -/
structure Resolver extends Log where
  resolved : List (Option Ty)
  inProgress : List Bool
deriving Inhabited

namespace Resolver

/-- The tables with one more finding. -/
def report (finding : Finding) (σ : Resolver) : Resolver :=
  { σ with toLog := σ.toLog.report finding }

instance : Logs Resolver := ⟨toLog, report⟩

/-- The tables for a number of declarations, before any is resolved. -/
def start (log : Log) (count : Nat) : Resolver :=
  ⟨log, List.replicate count none, List.replicate count false⟩

/-- The type that was found for a declaration, if it was resolved already. -/
def typeAt (id : SymbolId) : Step Resolver (Option Ty) := fun σ =>
  match σ.resolved[id]? with
  | some entry => .ok (some entry, σ)
  | none => .error (.declaration id)

/-- Whether a declaration is being resolved. -/
def isOpen (id : SymbolId) : Step Resolver Bool := fun σ =>
  match σ.inProgress[id]? with
  | some inProgress => .ok (some inProgress, σ)
  | none => .error (.declaration id)

/-- Notes whether a declaration is being resolved. -/
def mark (id : SymbolId) (inProgress : Bool) (σ : Resolver) : Resolver :=
  { σ with inProgress := σ.inProgress.set id inProgress }

/-- Keeps the type of a declaration. -/
def store (id : SymbolId) (ty : Ty) (σ : Resolver) : Resolver :=
  { σ with resolved := σ.resolved.set id (some ty) }

end Resolver

namespace Guarded

/-- The declaration at a place. -/
def declAt (decls : List TopLevel) (id : SymbolId) : Except Trap TopLevel :=
  match decls[id]? with
  | some decl => .ok decl
  | none => .error (.declaration id)

/-- The place that the global scope has for a name, and the declaration there. -/
def declared? (decls : List TopLevel) (scopes : ScopeStack) (name : String) :
    Except Trap (Option (SymbolId × TopLevel)) :=
  match scopes.lookupGlobal name with
  | some id => do
    let decl ← declAt decls id
    .ok (some (id, decl))
  | none => .ok none

/-- Whether a name is declared as a struct. -/
def isStruct (decls : List TopLevel) (scopes : ScopeStack) (name : String) : Except Trap Bool := do
  match ← declared? decls scopes name with
  | some (_, .struct _) => .ok true
  | _ => .ok false

/-- What type names mean between the declarations, given how a declaration is resolved. -/
def namesFrom (decls : List TopLevel) (scopes : ScopeStack)
    (resolveSymbol : SymbolId → Step Resolver Ty) : Names Resolver where
  isStruct := isStruct decls scopes
  resolve ident := do
    match ← look (declared? decls scopes ident.name) with
    | none => do
      report ⟨ident.span, .unknownType ident.name⟩
      stop
    | some (_, .function _) => do
      report ⟨ident.span, .functionAsType ident.name⟩
      stop
    | some (id, _) => resolveSymbol id

/-- The type of the declaration at a place. At most `free` declarations are not in progress. -/
def resolveSymbol (decls : List TopLevel) (scopes : ScopeStack) :
    Nat → SymbolId → Step Resolver Ty
  | free, id => do
    match ← Resolver.typeAt id with
    | some ty => pure ty
    | none => do
      let decl ← look (declAt decls id)
      if ← Resolver.isOpen id then do
        report ⟨decl.name.span, .recursiveType decl.name.name⟩
        stop
      else
        match free with
        | 0 => look (.error .nesting)
        | free + 1 => do
          change (Resolver.mark id true)
          let names := namesFrom decls scopes (resolveSymbol decls scopes free)
          let ty ← (typeOf names decl).thenAlways fun σ => .ok (σ.mark id false)
          change (Resolver.store id ty)
          pure ty

/-- Resolves the declarations at some places. -/
def resolveAll (decls : List TopLevel) (scopes : ScopeStack) : List SymbolId → Step Resolver Unit
  | [] => pure ()
  | id :: ids => do
    let _ ← resolveSymbol decls scopes decls.length id
    resolveAll decls scopes ids

/-- The symbols of declarations, with the types that were found for them. -/
def symbolsFrom : List TopLevel → List (Option Ty) → Step Resolver SymbolTable
  | [], _ | _, [] => pure []
  | _ :: _, none :: _ => stop
  | decl :: decls, some ty :: entries => do
    let symbols ← symbolsFrom decls entries
    pure (⟨decl.name.name, Declarations.kind decl, decl.name.span, ty⟩ :: symbols)

/-- The symbols of a compilation unit's declarations, given its global scope. -/
def populate (decls : List TopLevel) (scopes : ScopeStack) : Step Log SymbolTable :=
  Step.nested (Resolver.start · decls.length) Resolver.toLog do
    resolveAll decls scopes (List.range decls.length)
    fun σ => symbolsFrom decls σ.resolved σ

end Guarded

/-! ### What is in progress -/

namespace Declarations

variable {decls : List TopLevel} {path busy : List String} {name : String}

/-- What a declaration comes to inside the structs of `path`. -/
def opened (decls : List TopLevel) (path : List String) : TopLevel → Except Fault Ty
  | .struct decl =>
    if decl.name.name ∈ path then .error ⟨decl.name.span, .recursiveType decl.name.name⟩
    else structType (namesInside decls (decl.name.name :: path)) decl
  | .enum decl => enumType decl
  | .function decl => functionType (namesInside decls path) decl

theorem opened_nil (decl : TopLevel) : opened decls [] decl = typeOf decls decl := by
  cases decl <;> rfl

/-- A name of a type means what its declaration comes to. -/
theorem resolve_eq_opened (hpath : Relation.ReflTransGen (Opens decls) [] path) {ident : Ident}
    {decl : TopLevel} (hfind : find? decls ident.name = some decl)
    (htype : kind decl ≠ .function) :
    (namesInside decls path).resolve ident = opened decls path decl := by
  rw [resolve_namesInside hpath, resolveInside, hfind]
  cases decl with
  | function _ => exact absurd rfl htype
  | enum _ => rfl
  | struct _ =>
    rw [opened, (find?_struct hfind).1]

/-- The declarations that can be in progress at once: structs inside one another, and around them
perhaps a function. The structs among them are the path. -/
inductive InProgress (decls : List TopLevel) : List String → List String → Prop where
  | nothing : InProgress decls [] []
  | function {decl : FunctionDecl} (hdecl : .function decl ∈ decls) :
      InProgress decls [] [decl.name.name]
  | struct {path busy : List String} {name : String} (h : InProgress decls path busy)
      (hstruct : isStruct decls name = true) (hfresh : name ∉ busy) :
      InProgress decls (name :: path) (name :: busy)

namespace InProgress

theorem subset (h : InProgress decls path busy) : path ⊆ busy := by
  induction h with
  | nothing | function => exact List.nil_subset _
  | struct _ _ _ ih => exact List.cons_subset_cons _ ih

theorem opens (h : InProgress decls path busy) :
    Relation.ReflTransGen (Opens decls) [] path := by
  induction h with
  | nothing | function => exact .refl
  | struct h hstruct hfresh ih => exact ih.tail (.struct hstruct fun hmem => hfresh (h.subset hmem))

theorem nodup (h : InProgress decls path busy) : busy.Nodup := by
  induction h with
  | nothing => exact List.nodup_nil
  | function => exact List.nodup_singleton _
  | struct _ _ hfresh ih => exact List.nodup_cons.mpr ⟨hfresh, ih⟩

theorem names (h : InProgress decls path busy) : busy ⊆ decls.map (·.name.name) := by
  induction h with
  | nothing => exact List.nil_subset _
  | function hdecl =>
    intro name hname
    rw [List.mem_singleton.mp hname]
    exact List.mem_map.mpr ⟨_, hdecl, rfl⟩
  | struct _ hstruct _ ih => exact List.cons_subset.mpr ⟨mem_names_of_isStruct hstruct, ih⟩

theorem length_lt (h : InProgress decls path busy) (hname : name ∈ decls.map (·.name.name))
    (hfresh : name ∉ busy) : busy.length < decls.length := by
  have hlength := ((List.nodup_cons.mpr ⟨hfresh, h.nodup⟩).subperm
    (List.cons_subset.mpr ⟨hname, h.names⟩)).length_le
  rw [List.length_map] at hlength
  exact hlength

theorem mem_path (h : InProgress decls path busy) (hnodup : (decls.map (·.name.name)).Nodup)
    (hmem : name ∈ busy) :
    name ∈ path ∨ ∃ decl, find? decls name = some (.function decl) := by
  induction h with
  | nothing => cases hmem
  | function hdecl =>
    rw [List.mem_singleton.mp hmem]
    exact .inr ⟨_, find?_of_nodup hnodup hdecl⟩
  | struct _ _ _ ih =>
    rcases List.mem_cons.mp hmem with rfl | hmem
    · exact .inl List.mem_cons_self
    · exact (ih hmem).imp_left (List.mem_cons_of_mem _)

theorem path_eq_nil (h : InProgress decls path []) : path = [] :=
  List.subset_nil.mp h.subset

end InProgress

end Declarations

/-! ### What the tables hold -/

open Declarations (InProgress Opens namesInside opened place_eq declare_eq_ok find?_of_nodup
  opened_nil resolveInside symbolsOf)

namespace Resolver

variable {decls : List TopLevel} {path busy : List String} {σ σ' : Resolver}

/-- The table has the type of a name. -/
def Knows (decls : List TopLevel) (σ : Resolver) (name : String) (ty : Ty) : Prop :=
  ∃ (id : SymbolId) (decl : TopLevel), decls[id]? = some decl ∧ decl.name.name = name ∧
    Declarations.kind decl ≠ .function ∧ σ.resolved[id]? = some (some ty)

/-- All names that are in the table mean the types in it. -/
def Known (decls : List TopLevel) (σ : Resolver) (meaning : Ident → Except Fault Ty) : Prop :=
  ∀ ident ty, σ.Knows decls ident.name ty → meaning ident = .ok ty

/-- None of the structs of a path has a type in the table yet. -/
def Lacks (decls : List TopLevel) (σ : Resolver) (path : List String) : Prop :=
  ∀ name ∈ path, ∀ ty, ¬σ.Knows decls name ty

/-- Inside any structs that are not in the table, the declaration comes to the type. -/
def Settles (decls : List TopLevel) (σ : Resolver) (decl : TopLevel) (ty : Ty) : Prop :=
  ∀ path, Relation.ReflTransGen (Opens decls) [] path → σ.Lacks decls path →
    decl.name.name ∉ path → (∀ f, decl = .function f → path = []) → opened decls path decl = .ok ty

/-- What holds of the tables while declarations are in progress. What is in progress has no type
yet, and the types in the table do not depend on the structs that are open. -/
structure Agrees (decls : List TopLevel) (busy : List String) (σ : Resolver) : Prop where
  nodup : (decls.map (·.name.name)).Nodup
  resolved_length : σ.resolved.length = decls.length
  inProgress_eq : ∀ (id : SymbolId) (decl : TopLevel), decls[id]? = some decl →
    σ.inProgress[id]? = some (decide (decl.name.name ∈ busy))
  entries : ∀ (id : SymbolId) (decl : TopLevel) (ty : Ty), decls[id]? = some decl →
    σ.resolved[id]? = some (some ty) → decl.name.name ∉ busy ∧ σ.Settles decls decl ty

/-- What was found stays. -/
def Grows (σ σ' : Resolver) : Prop :=
  ∀ (id : SymbolId) (ty : Ty), σ.resolved[id]? = some (some ty) → σ'.resolved[id]? = some (some ty)

theorem Grows.trans {σ'' : Resolver} (h : σ.Grows σ') (h' : σ'.Grows σ'') : σ.Grows σ'' :=
  fun id ty hty => h' id ty (h id ty hty)

theorem Known.of_grows {meaning : Ident → Except Fault Ty} (hgrows : σ.Grows σ')
    (h : σ'.Known decls meaning) : σ.Known decls meaning := by
  rintro ident ty ⟨id, decl, hdecl, hname, hkind, hresolved⟩
  exact h ident ty ⟨id, decl, hdecl, hname, hkind, hgrows id ty hresolved⟩

theorem Settles.mono {decl : TopLevel} {ty : Ty} (hgrows : σ.Grows σ')
    (h : σ.Settles decls decl ty) : σ'.Settles decls decl ty := by
  intro path hpath hlacks
  refine h path hpath ?_
  rintro name hname ty' ⟨id, decl', hdecl, hname', hkind, hresolved⟩
  exact hlacks name hname ty' ⟨id, decl', hdecl, hname', hkind, hgrows id ty' hresolved⟩

variable {id : SymbolId} {decl : TopLevel} {ty : Ty}

/-- A declaration that gets its type takes that of no other. -/
theorem grows_store (h : ∀ ty, σ.resolved[id]? ≠ some (some ty)) (ty : Ty) :
    σ.Grows (σ.store id ty) := by
  intro id' ty' hresolved
  have hne : id ≠ id' := by
    rintro rfl
    exact h ty' hresolved
  exact (List.getElem?_set_ne hne).trans hresolved

theorem inProgress_mark {busy' : List String} {inProgress : Bool} (h : σ.Agrees decls busy)
    (hdecl : decls[id]? = some decl)
    (hothers : ∀ name, name ≠ decl.name.name → (name ∈ busy ↔ name ∈ busy'))
    (hself : inProgress = decide (decl.name.name ∈ busy')) (id' : SymbolId) (decl' : TopLevel)
    (hdecl' : decls[id']? = some decl') :
    (σ.mark id inProgress).inProgress[id']? = some (decide (decl'.name.name ∈ busy')) := by
  have hmarked := h.inProgress_eq id' decl' hdecl'
  by_cases hid : id' = id
  · subst hid
    cases hdecl.symm.trans hdecl'
    obtain ⟨hlt, -⟩ := List.getElem?_eq_some_iff.mp hmarked
    simp [mark, hlt, hself]
  · have hname : decl'.name.name ≠ decl.name.name := fun hname =>
      hid (place_eq h.nodup hdecl' hdecl hname)
    rw [mark, List.getElem?_set_ne (Ne.symm hid), hmarked]
    simp [hothers _ hname]

namespace Agrees

theorem start (hnodup : (decls.map (·.name.name)).Nodup) (log : Log) :
    (Resolver.start log decls.length).Agrees decls [] := by
  refine ⟨hnodup, by simp [Resolver.start], fun id decl hdecl => ?_, fun id decl ty hdecl h => ?_⟩
  · obtain ⟨hid, -⟩ := List.getElem?_eq_some_iff.mp hdecl
    simp [Resolver.start, hid]
  · cases List.eq_of_mem_replicate (List.mem_of_getElem? h)

/-- In progress and without a type, or not in progress. -/
theorem not_knows (h : σ.Agrees decls busy) {name : String} (hname : name ∈ busy) (ty : Ty) :
    ¬σ.Knows decls name ty := by
  rintro ⟨id, decl, hdecl, rfl, -, hresolved⟩
  exact (h.entries id decl ty hdecl hresolved).1 hname

/-- Names mean the types in the table, inside structs that are not in it. -/
theorem known (h : σ.Agrees decls busy) (hpath : Relation.ReflTransGen (Opens decls) [] path)
    (hlacks : σ.Lacks decls path) : σ.Known decls (namesInside decls path).resolve := by
  rintro ident ty ⟨id, decl, hdecl, hname, hkind, hresolved⟩
  have hfind := find?_of_nodup h.nodup (List.mem_of_getElem? hdecl)
  rw [hname] at hfind
  rw [Declarations.resolve_eq_opened hpath hfind hkind]
  refine (h.entries id decl ty hdecl hresolved).2 path hpath hlacks (fun hmem => ?_) ?_
  · exact hlacks _ hmem ty ⟨id, decl, hdecl, rfl, hkind, hresolved⟩
  · rintro f rfl
    exact absurd rfl hkind

/-- A declaration that has a type in the table comes to that type. -/
theorem opened_eq (h : σ.Agrees decls busy) (hprogress : InProgress decls path busy)
    (hdecl : decls[id]? = some decl) (hfunction : ∀ f, decl = .function f → busy = [])
    (hresolved : σ.resolved[id]? = some (some ty)) : opened decls path decl = .ok ty := by
  obtain ⟨hfresh, hsettles⟩ := h.entries id decl ty hdecl hresolved
  refine hsettles path hprogress.opens (fun _ hname => h.not_knows (hprogress.subset hname))
    (fun hmem => hfresh (hprogress.subset hmem)) fun f hf => ?_
  cases hfunction f hf
  exact hprogress.path_eq_nil

theorem enter (h : σ.Agrees decls busy) (hdecl : decls[id]? = some decl)
    (hresolved : σ.resolved[id]? = some none) :
    (σ.mark id true).Agrees decls (decl.name.name :: busy) := by
  refine ⟨h.nodup, h.resolved_length,
    inProgress_mark h hdecl (fun name hne => by simp [hne]) (by simp), ?_⟩
  intro id' decl' ty hdecl' hresolved'
  obtain ⟨hfresh, hsettles⟩ := h.entries id' decl' ty hdecl' hresolved'
  refine ⟨fun hmem => ?_, hsettles⟩
  rcases List.mem_cons.mp hmem with hname | hmem
  · cases place_eq h.nodup hdecl' hdecl hname
    cases hresolved.symm.trans hresolved'
  · exact hfresh hmem

theorem leave (h : σ.Agrees decls (decl.name.name :: busy)) (hdecl : decls[id]? = some decl)
    (hfresh : decl.name.name ∉ busy) (hsettles : σ.Settles decls decl ty) :
    ((σ.mark id false).store id ty).Agrees decls busy := by
  -- the declaration had no type so far, so what had one still has it
  have hgrows : σ.Grows ((σ.mark id false).store id ty) :=
    grows_store (fun ty' hty => (h.entries id decl ty' hdecl hty).1 List.mem_cons_self) ty
  refine ⟨h.nodup, by simpa [store, mark] using h.resolved_length,
    inProgress_mark h hdecl (fun name hne => by simp [hne]) (by simp [hfresh]), ?_⟩
  intro id' decl' ty' hdecl' hresolved
  by_cases hid : id' = id
  · subst hid
    cases hdecl.symm.trans hdecl'
    rw [store, List.getElem?_set_self'] at hresolved
    obtain ⟨_, -, heq⟩ := Option.map_eq_some_iff.mp hresolved
    cases heq
    exact ⟨hfresh, hsettles.mono hgrows⟩
  · rw [store, List.getElem?_set_ne (Ne.symm hid)] at hresolved
    obtain ⟨hfresh', hsettles'⟩ := h.entries id' decl' ty' hdecl' hresolved
    exact ⟨fun hmem => hfresh' (List.mem_cons_of_mem _ hmem), hsettles'.mono hgrows⟩

end Agrees

/-! ### What a step finds -/

/-- The tables later on, while the same declarations are in progress and nothing was reported. -/
structure Later (decls : List TopLevel) (busy : List String) (σ σ' : Resolver) : Prop where
  log_eq : σ'.toLog = σ.toLog
  agrees : σ'.Agrees decls busy
  grows : σ.Grows σ'

theorem Later.trans {σ'' : Resolver} (h : σ.Later decls busy σ') (h' : σ'.Later decls busy σ'') :
    σ.Later decls busy σ'' :=
  ⟨h'.log_eq.trans h.log_eq, h'.agrees, h.grows.trans h'.grows⟩

/-- A run comes to a result, of which something holds, or reports the fault and stops. -/
inductive Comes {α : Type} (decls : List TopLevel) (busy : List String) (σ : Resolver)
    (P : α → Resolver → Prop) : Except Fault α → Except Trap (Option α × Resolver) → Prop where
  | passed {a : α} {σ' : Resolver} (hlater : σ.Later decls busy σ') (hresult : P a σ') :
      Comes decls busy σ P (.ok a) (.ok (some a, σ'))
  | stopped {fault : Fault} {σ' : Resolver} (hlog : σ'.toLog = σ.toLog.report (.fault fault)) :
      Comes decls busy σ P (.error fault) (.ok (none, σ'))

theorem Comes.of_later {α : Type} {P Q : α → Resolver → Prop} {result : Except Fault α}
    {run : Except Trap (Option α × Resolver)} (hlater : σ.Later decls busy σ')
    (hresult : ∀ a σ'', σ'.Later decls busy σ'' → P a σ'' → Q a σ'')
    (h : Comes decls busy σ' P result run) : Comes decls busy σ Q result run := by
  cases h with
  | passed hlater' hP => exact .passed (hlater.trans hlater') (hresult _ _ hlater' hP)
  | stopped hlog => exact .stopped (hlog.trans (by rw [hlater.log_eq]))

/-- Inside the structs of a path, a step comes to what it should come to by what names mean there.
What it comes to only depends on names that are in the table by then. -/
def Finds (decls : List TopLevel) (path busy : List String) (α : Type) (x : Step Resolver α)
    (f : (Ident → Except Fault Ty) → Except Fault α) : Prop :=
  ∀ σ, σ.Agrees decls busy →
    Comes decls busy σ (fun a σ' => ∀ meaning, σ'.Known decls meaning → f meaning = .ok a)
      (f (namesInside decls path).resolve) (x σ)

theorem Finds.runs {α : Type} {x : Step Resolver α} {result : Except Fault α}
    (h : x.Runs result) : Finds decls path busy α x fun _ => result := by
  intro σ hσ
  rw [h σ]
  cases result with
  | ok a => exact .passed ⟨rfl, hσ, fun _ _ h => h⟩ fun _ _ => rfl
  | error _ => exact .stopped rfl

theorem Finds.bind {α β : Type} {x : Step Resolver α}
    {f : (Ident → Except Fault Ty) → Except Fault α} {next : α → Step Resolver β}
    {g : α → (Ident → Except Fault Ty) → Except Fault β} (h : Finds decls path busy α x f)
    (hnext : ∀ a, Finds decls path busy β (next a) (g a)) :
    Finds decls path busy β (x >>= next) fun meaning => f meaning >>= fun a => g a meaning := by
  intro σ hσ
  have hfirst := h σ hσ
  show Comes decls busy σ _ (f _ >>= fun a => g a _) (Step.resume next (x σ))
  generalize f (namesInside decls path).resolve = result, x σ = run at hfirst
  cases hfirst with
  | stopped hlog => exact .stopped hlog
  | passed hlater hresult =>
    refine (hnext _ _ hlater.agrees).of_later hlater fun b σ'' hlater' hresult' => ?_
    intro meaning hknown
    simp only
    rw [hresult meaning (hknown.of_grows hlater'.grows)]
    exact hresult' meaning hknown

end Resolver

/-! ### Resolving a declaration -/

namespace Guarded

open Resolver (Agrees Comes Finds grows_store)

variable {decls : List TopLevel} {scopes : ScopeStack} {path busy : List String}

variable {free : Nat} {decl : TopLevel}

theorem declAt_eq_ok {id : SymbolId} (h : decls[id]? = some decl) : declAt decls id = .ok decl := by
  simp only [declAt, h]

section Run

variable {id : SymbolId} {decl : TopLevel} {σ : Resolver} {ty : Ty} (free : Nat)

/-- A declaration in the table is not resolved again. -/
theorem resolveSymbol_resolved (h : σ.resolved[id]? = some (some ty)) :
    resolveSymbol decls scopes free id σ = .ok (some ty, σ) := by
  have htype : Resolver.typeAt id σ = .ok (some (some ty), σ) := by simp only [Resolver.typeAt, h]
  unfold resolveSymbol
  rw [bind_some htype]
  rfl

theorem resolveSymbol_unresolved (h : σ.resolved[id]? = some none)
    (hdecl : decls[id]? = some decl) {inProgress : Bool}
    (hprogress : σ.inProgress[id]? = some inProgress) :
    resolveSymbol decls scopes free id σ =
      (if inProgress = true then
        report ⟨decl.name.span, .recursiveType decl.name.name⟩ >>= fun _ => stop
      else
        match free with
        | 0 => look (.error .nesting)
        | free + 1 => change (Resolver.mark id true) >>= fun _ =>
          (typeOf (namesFrom decls scopes (resolveSymbol decls scopes free)) decl).thenAlways
            (fun σ => .ok (σ.mark id false)) >>= fun ty =>
              change (Resolver.store id ty) >>= fun _ => pure ty : Step Resolver Ty) σ := by
  have htype : Resolver.typeAt id σ = .ok (some none, σ) := by simp only [Resolver.typeAt, h]
  have hlook : look (S := Resolver) (declAt decls id) σ = .ok (some decl, σ) := by
    rw [declAt_eq_ok hdecl]
    rfl
  have hopen : Resolver.isOpen id σ = .ok (some inProgress, σ) := by
    simp only [Resolver.isOpen, hprogress]
  rw [resolveSymbol]
  rw [bind_some htype]
  simp only
  rw [bind_some hlook, bind_some hopen]

end Run

section Declared

variable (h : Declarations.declare decls = .ok scopes)
include h

theorem declared?_eq_none {name : String} (hfind : Declarations.find? decls name = none) :
    declared? decls scopes name = .ok none := by
  have hidx : decls.findIdx? (·.name.name == name) = none :=
    List.findIdx?_eq_none_iff.mpr fun decl hdecl => by
      simpa using List.find?_eq_none.mp hfind decl hdecl
  simp only [declared?, ScopeStack.lookupGlobal, (declare_eq_ok h).2.2 name, hidx]

theorem declared?_eq_some {name : String} (hfind : Declarations.find? decls name = some decl) :
    ∃ id, decls[id]? = some decl ∧ declared? decls scopes name = .ok (some (id, decl)) := by
  obtain ⟨id, hdecl⟩ := List.getElem?_of_mem (List.mem_of_find?_eq_some hfind)
  have hname : decl.name.name = name := by simpa using List.find?_some hfind
  have hidx := Declarations.findIdx?_of_nodup (declare_eq_ok h).2.1 hdecl
  rw [hname] at hidx
  refine ⟨id, hdecl, ?_⟩
  simp only [declared?, ScopeStack.lookupGlobal, (declare_eq_ok h).2.2 name, hidx,
    declAt_eq_ok hdecl]
  rfl

theorem isStruct_eq_ok (name : String) :
    isStruct decls scopes name = .ok (Declarations.isStruct decls name) := by
  unfold isStruct Declarations.isStruct
  cases hfind : Declarations.find? decls name with
  | none =>
    rw [declared?_eq_none h hfind]
    rfl
  | some decl =>
    obtain ⟨_, -, hdeclared⟩ := declared?_eq_some h hfind
    rw [hdeclared]
    cases decl <;> rfl

end Declared

/-- With room for `free` declarations more, a declaration comes to its type, which is in the table
then. A function is only resolved while nothing is in progress. -/
def Resolves (decls : List TopLevel) (scopes : ScopeStack) (free : Nat) : Prop :=
  ∀ path busy, InProgress decls path busy → free + busy.length = decls.length →
    ∀ (id : SymbolId) (decl : TopLevel), decls[id]? = some decl →
    (∀ f, decl = .function f → busy = []) → ∀ σ, σ.Agrees decls busy →
      Comes decls busy σ (fun ty σ' => σ'.resolved[id]? = some (some ty)) (opened decls path decl)
        (resolveSymbol decls scopes free id σ)

section Resolves

variable (h : Declarations.declare decls = .ok scopes)
include h

theorem finds_named (hresolves : Resolves decls scopes free)
    (hprogress : InProgress decls path busy) (hfree : free + busy.length = decls.length)
    (ident : Ident) :
    Finds decls path busy Ty
      ((namesFrom decls scopes (resolveSymbol decls scopes free)).resolve ident)
      fun meaning => meaning ident := by
  intro σ hσ
  cases hfind : Declarations.find? decls ident.name with
  | none =>
    have hresult : (namesInside decls path).resolve ident =
        .error ⟨ident.span, .unknownType ident.name⟩ := by
      simp only [Declarations.resolve_namesInside hprogress.opens, resolveInside, hfind]
    simp only [namesFrom, declared?_eq_none h hfind, hresult]
    exact .stopped rfl
  | some decl =>
    obtain ⟨id, hdecl, hdeclared⟩ := declared?_eq_some h hfind
    have hname : decl.name.name = ident.name := by simpa using List.find?_some hfind
    simp only [namesFrom, hdeclared]
    -- a declared type is in the table once it was resolved
    have hstep : ∀ hkind : Declarations.kind decl ≠ .function,
        Comes decls busy σ (fun ty σ' => ∀ meaning : Ident → Except Fault Ty,
          σ'.Known decls meaning → meaning ident = .ok ty) ((namesInside decls path).resolve ident)
          (resolveSymbol decls scopes free id σ) := by
      intro hkind
      rw [Declarations.resolve_eq_opened hprogress.opens hfind hkind]
      refine (hresolves path busy hprogress hfree id decl hdecl ?_ σ hσ).of_later
        ⟨rfl, hσ, fun _ _ h => h⟩ fun ty σ' _ hty meaning hknown => ?_
      · rintro f rfl
        exact absurd rfl hkind
      · exact hknown ident ty ⟨id, decl, hdecl, hname, hkind, hty⟩
    cases decl with
    | function f =>
      have hresult : (namesInside decls path).resolve ident =
          .error ⟨ident.span, .functionAsType ident.name⟩ := by
        simp only [Declarations.resolve_namesInside hprogress.opens, resolveInside,
          hfind]
      rw [hresult]
      exact .stopped rfl
    | struct _ | enum _ => exact hstep (by simp [Declarations.kind])

theorem finds_rules (hresolves : Resolves decls scopes free)
    (hprogress : InProgress decls path busy) (hfree : free + busy.length = decls.length) :
    (namesFrom decls scopes (resolveSymbol decls scopes free)).Rules (Declarations.isStruct decls)
      (Finds decls path busy) where
  isStruct := isStruct_eq_ok h
  named := finds_named h hresolves hprogress hfree
  runs := Finds.runs
  bind := Finds.bind

/-- A declaration that is neither resolved nor in progress comes to its type while it is marked. It
comes to that type inside any structs that are not in the table. -/
theorem comes_typeOf (hresolves : Resolves decls scopes free)
    (hprogress : InProgress decls path busy) (hfree : free + 1 + busy.length = decls.length)
    (hdecl : decl ∈ decls) (hfunction : ∀ f, decl = .function f → busy = [])
    (hfresh : decl.name.name ∉ busy) {σ : Resolver} (hσ : σ.Agrees decls (decl.name.name :: busy)) :
    Comes decls (decl.name.name :: busy) σ
      (fun ty σ' => σ'.Settles decls decl ty) (opened decls path decl)
      (typeOf (namesFrom decls scopes (resolveSymbol decls scopes free)) decl σ) := by
  have hnodup := (declare_eq_ok h).2.1
  have hlater : σ.Later decls (decl.name.name :: busy) σ := ⟨rfl, hσ, fun _ _ h => h⟩
  have hfree' : free + (decl.name.name :: busy).length = decls.length := by
    rw [List.length_cons]
    omega
  cases decl with
  | enum decl =>
    have hfinds : ∀ busy, Finds decls path busy Ty (enumType decl) fun _ =>
        Declarations.enumType decl := fun _ => .runs (runs_enumType decl)
    refine (hfinds _ σ hσ).of_later hlater fun ty σ' hlater' hresult path' _ _ _ _ => ?_
    exact hresult _ (hlater'.agrees.known .refl (by simp [Resolver.Lacks]))
  | function f =>
    cases hfunction f rfl
    cases hprogress.path_eq_nil
    have hrun := (finds_rules h hresolves (.function hdecl) hfree').functionType f σ hσ
    refine hrun.of_later hlater fun ty σ' hlater' hresult path' _ _ _ hnil => ?_
    cases hnil f rfl
    exact hresult _ (hlater'.agrees.known .refl (by simp [Resolver.Lacks]))
  | struct decl =>
    have hstruct := (Declarations.find?_struct (find?_of_nodup hnodup hdecl)).2
    have hopened : ∀ path, decl.name.name ∉ path → opened decls path (.struct decl) =
        Declarations.structType (namesInside decls (decl.name.name :: path)) decl :=
      fun _ hnot => if_neg hnot
    have hrun := (finds_rules h hresolves (hprogress.struct hstruct hfresh) hfree').structType
      decl σ hσ
    rw [hopened path fun hmem => hfresh (hprogress.subset hmem)]
    refine hrun.of_later hlater fun ty σ' hlater' hresult path' hpath hlacks hnot _ => ?_
    rw [hopened path' hnot]
    refine hresult _ (hlater'.agrees.known (hpath.tail (.struct hstruct hnot)) ?_)
    intro name hname
    rcases List.mem_cons.mp hname with rfl | hname
    · exact hlater'.agrees.not_knows List.mem_cons_self
    · exact hlacks name hname

theorem resolves_of (hinner : ∀ free', free = free' + 1 → Resolves decls scopes free') :
    Resolves decls scopes free := by
  intro path busy hprogress hfree id decl hdecl hfunction σ hσ
  have hnodup := (declare_eq_ok h).2.1
  have hmem := List.mem_of_getElem? hdecl
  have hid : id < σ.resolved.length := by
    rw [hσ.resolved_length]
    exact (List.getElem?_eq_some_iff.mp hdecl).1
  cases hentry : σ.resolved[id] with
  | some ty =>
    have hresolved : σ.resolved[id]? = some (some ty) := by
      rw [List.getElem?_eq_getElem hid, hentry]
    rw [resolveSymbol_resolved free hresolved,
      hσ.opened_eq hprogress hdecl hfunction hresolved]
    exact .passed ⟨rfl, hσ, fun _ _ h => h⟩ hresolved
  | none =>
    have hresolved : σ.resolved[id]? = some none := by
      rw [List.getElem?_eq_getElem hid, hentry]
    rw [resolveSymbol_unresolved free hresolved hdecl (hσ.inProgress_eq id decl hdecl)]
    by_cases hbusy : decl.name.name ∈ busy
    · -- only a struct can be met again while it is in progress
      have hfind := find?_of_nodup hnodup hmem
      simp only [hbusy, decide_true, if_true]
      rcases hprogress.mem_path hnodup hbusy with hpath | ⟨f, hf⟩
      · have hstruct := (Declarations.nodup_of_opens hprogress.opens).2 _ hpath
        cases decl with
        | struct decl =>
          have hrefused : opened decls path (.struct decl) =
              .error ⟨decl.name.span, .recursiveType decl.name.name⟩ := if_pos hpath
          rw [hrefused]
          exact .stopped rfl
        | enum _ | function _ => simp [Declarations.isStruct, hfind] at hstruct
      · cases hfind.symm.trans hf
        cases hfunction f rfl
        cases hbusy
    · simp only [hbusy, decide_false, Bool.false_eq_true, if_false]
      cases free with
      | zero =>
        have hlt := hprogress.length_lt (List.mem_map.mpr ⟨decl, hmem, rfl⟩) hbusy
        omega
      | succ free =>
        have hrun := comes_typeOf h (hinner free rfl) hprogress hfree hmem hfunction hbusy
          (hσ.enter hdecl hresolved)
        show Comes decls busy σ _ _ (Step.resume (fun ty =>
          change (Resolver.store id ty) >>= fun _ => pure ty)
            (Step.settle (fun σ => .ok (σ.mark id false)) (typeOf _ decl (σ.mark id true))))
        generalize opened decls path decl = result, typeOf (S := Resolver) _ decl _ = run at hrun
        cases hrun with
        | stopped hlog => exact .stopped hlog
        | passed hlater hresult =>
          rename_i _ σ'
          have hid' : id < σ'.resolved.length := by
            rw [hlater.agrees.resolved_length, ← hσ.resolved_length]
            exact hid
          have hnew : ∀ ty, σ'.resolved[id]? ≠ some (some ty) := fun ty hty =>
            (hlater.agrees.entries id decl ty hdecl hty).1 List.mem_cons_self
          exact .passed ⟨hlater.log_eq, hlater.agrees.leave hdecl hbusy hresult,
            hlater.grows.trans (grows_store hnew _)⟩ (List.getElem?_set_self hid')

/-- Whatever the room is, it suffices. -/
theorem resolves (free : Nat) : Resolves decls scopes free := by
  induction free with
  | zero => exact resolves_of h fun _ hfree => by cases hfree
  | succ _ ih => exact resolves_of h fun _ hfree => Nat.succ.inj hfree ▸ ih

/-! ### All declarations -/

/-- Declarations are resolved one after another, from the place `start` on, until one is refused. -/
theorem comes_resolveAll {start : Nat} {rest : List TopLevel} (hrest : decls.drop start = rest)
    {σ : Resolver} (hσ : σ.Agrees decls []) :
    Comes decls [] σ (fun _ σ' => ∀ id, start ≤ id → id < decls.length →
        ∃ ty, σ'.resolved[id]? = some (some ty))
      (symbolsOf decls rest >>= fun _ => .ok ())
      (resolveAll decls scopes (List.range' start rest.length) σ) := by
  induction rest generalizing start σ with
  | nil =>
    refine .passed ⟨rfl, hσ, fun _ _ h => h⟩ fun id hstart hid => ?_
    have hlength := List.drop_eq_nil_iff.mp hrest
    omega
  | cons decl rest ih =>
    obtain ⟨hdecl, hnext⟩ := Declarations.place_of_drop hrest
    have hfirst := resolves h decls.length [] [] .nothing rfl start decl hdecl (fun _ _ => rfl) σ hσ
    rw [opened_nil] at hfirst
    show Comes decls [] σ _ ((Declarations.typeOf decls decl >>= fun ty =>
        symbolsOf decls rest >>= fun symbols => .ok (_ :: symbols)) >>= fun _ => .ok ())
      (Step.resume (fun _ => resolveAll decls scopes (List.range' (start + 1) rest.length))
        (resolveSymbol decls scopes decls.length start σ))
    generalize Declarations.typeOf decls decl = result, resolveSymbol _ _ _ _ σ = run at hfirst
    cases hfirst with
    | stopped hlog => exact .stopped hlog
    | passed hlater hresolved =>
      have hresult : ∀ f : SymbolTable → SymbolTable, ((symbolsOf decls rest >>=
          fun symbols => Except.ok (f symbols)) >>= fun _ => Except.ok ()) =
            symbolsOf decls rest >>= fun _ => .ok () := by
        intro f
        cases symbolsOf decls rest <;> rfl
      refine hresult _ ▸ (ih hnext hlater.agrees).of_later hlater fun _ σ'' hlater' hall => ?_
      intro id hstart hid
      rcases Nat.eq_or_lt_of_le hstart with rfl | hstart
      · exact ⟨_, hlater'.grows _ _ hresolved⟩
      · exact hall id hstart hid

omit h in
theorem symbolsFrom_eq {start : Nat} {rest : List TopLevel} (hrest : decls.drop start = rest)
    {σ : Resolver} (hσ : σ.Agrees decls [])
    (hall : ∀ id, start ≤ id → id < decls.length → ∃ ty, σ.resolved[id]? = some (some ty)) :
    ∃ symbols, symbolsOf decls rest = .ok symbols ∧
      symbolsFrom rest (σ.resolved.drop start) σ = .ok (some symbols, σ) := by
  induction rest generalizing start with
  | nil => exact ⟨[], rfl, rfl⟩
  | cons decl rest ih =>
    obtain ⟨hdecl, hnext⟩ := Declarations.place_of_drop hrest
    obtain ⟨hstart, -⟩ := List.getElem?_eq_some_iff.mp hdecl
    obtain ⟨ty, hty⟩ := hall start (Nat.le_refl _) hstart
    obtain ⟨symbols, hsymbols, hrun⟩ := ih hnext fun id hid => hall id (Nat.le_of_succ_le hid)
    obtain ⟨hlt, hget⟩ := List.getElem?_eq_some_iff.mp hty
    refine ⟨⟨decl.name.name, Declarations.kind decl, decl.name.span, ty⟩ :: symbols, ?_, ?_⟩
    · rw [symbolsOf, ← opened_nil,
        hσ.opened_eq .nothing hdecl (fun _ _ => rfl) hty, hsymbols]
      rfl
    · rw [List.drop_eq_getElem_cons hlt, hget]
      exact bind_some hrun _

/-- With the tables, the declarations come to the types that they have without, or to the same
fault. -/
theorem runs_populate : Runs (populate decls scopes) (Declarations.populate decls) := by
  intro log
  have hnodup := (declare_eq_ok h).2.1
  have hall := comes_resolveAll h List.drop_zero (Agrees.start hnodup log)
  rw [← List.range_eq_range'] at hall
  rw [Declarations.populate]
  cases hresult : symbolsOf decls decls with
  | error _ =>
    rw [hresult] at hall
    generalize hrun : resolveAll _ _ _ _ = run at hall
    cases hall with
    | stopped hlog =>
      refine (Step.nested_eq (Resolver.start · decls.length) _ (Step.bind_none hrun _)).trans ?_
      rw [hlog]
      rfl
  | ok _ =>
    rw [hresult] at hall
    generalize hrun : resolveAll _ _ _ _ = run at hall
    cases hall with
    | passed hlater hresolved =>
      obtain ⟨_, hsymbols, hlast⟩ := symbolsFrom_eq List.drop_zero hlater.agrees hresolved
      cases hresult.symm.trans hsymbols
      have hwhole := (bind_some hrun fun _ σ => symbolsFrom decls σ.resolved σ).trans hlast
      refine (Step.nested_eq (Resolver.start · decls.length) _ hwhole).trans ?_
      rw [hlater.log_eq]
      rfl

end Resolves

end Guarded

end Laye
