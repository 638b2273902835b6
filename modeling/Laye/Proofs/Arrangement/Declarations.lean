import Laye.Proofs.Arrangement.Alike

/-!
# The types of declarations in another order

The type of a declaration depends on what the other declarations are, not on the order in which they
stand: `Declarations.alike_typeOf` compares the declarations of a unit with the same declarations
without spans, in any order. It rests on the names: no two are alike, so each is found in both
(`Declarations.find?_of_perm`).
-/

namespace Laye

/-! ### Written types -/

/-- Type names mean the same, wherever they are written. -/
structure TypeNames.Alike (g : SpanMap) (names names' : TypeNames) : Prop where
  isStruct_eq : ∀ name, names.isStruct name = names'.isStruct name
  resolve : ∀ ident, SameOutcome g Eq (names.resolve ident) (names'.resolve (ident.respan g))

namespace TypeExpr

variable {g : SpanMap} {names names' : TypeNames}

theorem alike_fault (t : TypeExpr) {α β : Type} {R : α → β → Prop} (problem : Problem) :
    SameOutcome g R (.error (⟨t.span, problem⟩ : Fault)) (.error ⟨(t.respan g).span, problem⟩) :=
  congrArg (Fault.mk · problem) (t.span_respan g)

theorem alike_nonVoid (element : TypeExpr) (ty : Ty) :
    SameOutcome g Eq (nonVoid element ty) (nonVoid (element.respan g) ty) :=
  .ite .rfl (element.alike_fault _) rfl

theorem namedStruct?_respan (h : names.Alike g names') (t : TypeExpr) :
    namedStruct? names t = namedStruct? names' (t.respan g) := by
  cases t with
  | named ident =>
    show (if names.isStruct ident.name = true then _ else _) =
      if names'.isStruct ident.name = true then _ else _
    rw [h.isStruct_eq]
    rfl
  | _ => rfl

theorem alike_behind (h : names.Alike g names') (element : TypeExpr)
    {resolved resolved' : Unit → Except Fault Ty}
    (hresolved : SameOutcome g Eq (resolved ()) (resolved' ())) :
    SameOutcome g Eq (resolve.behind names element resolved)
      (resolve.behind names' (element.respan g) resolved') := by
  simp only [resolve.behind, namedStruct?_respan h]
  cases namedStruct? names' (element.respan g) with
  | none => exact hresolved
  | some _ => rfl

/-- A written type means the same wherever it stands. -/
theorem alike_resolve (h : names.Alike g names') (t : TypeExpr) :
    SameOutcome g Eq (t.resolve names) ((t.respan g).resolve names') := by
  induction t with
  | builtin keyword _ =>
    simp only [resolve, respan, resolveBuiltin]
    cases Builtin.ofKeyword keyword with
    | _ => rfl
  | named ident => exact h.resolve ident
  | pointer element _ _ ih => exact (alike_behind h element ih).bind_eq fun _ => rfl
  | buffer element access span ih | slice element _ _ ih =>
    exact (alike_behind h element ih).bind_eq fun ty =>
      (alike_nonVoid element ty).bind_eq fun _ => rfl
  | array element _ _ _ ih =>
    exact ih.bind_eq fun ty =>
      (alike_nonVoid element ty).bind_eq fun _ => .ite .rfl rfl rfl

end TypeExpr

namespace Declarations

variable {g : SpanMap} {names names' : TypeNames}

/-! ### Structs, enums and functions -/

theorem alike_fieldTypes (h : names.Alike g names') (struct : String) (fields : List Param)
    (done : List (String × Ty)) :
    SameOutcome g Eq (fieldTypes names struct fields done)
      (fieldTypes names' struct (fields.map (Param.respan g)) done) := by
  induction fields generalizing done with
  | nil => rfl
  | cons field _ ih =>
    refine .ite .rfl rfl ?_
    refine (TypeExpr.alike_resolve h field.ty).bind_eq fun ty => ?_
    exact .ite .rfl (field.ty.alike_fault _) (ih _)

theorem alike_structType (h : names.Alike g names') (decl : StructDecl) :
    SameOutcome g Eq (structType names decl) (structType names' (decl.respan g)) :=
  (alike_fieldTypes h decl.name.name decl.fields []).bind_eq fun _ => rfl

theorem alike_variantValues (enum : String) (variants : List EnumVariant) (next : Option Nat)
    (done : List (String × Nat)) :
    SameOutcome g Eq (variantValues enum variants next done)
      (variantValues enum (variants.map (EnumVariant.respan g)) next done) := by
  induction variants generalizing next done with
  | nil => rfl
  | cons variant _ ih =>
    refine .ite .rfl rfl ?_
    rw [EnumVariant.value_respan]
    cases variant.value.or next with
    | none => rfl
    | some _ => exact ih _ _

theorem alike_enumType (decl : EnumDecl) :
    SameOutcome g Eq (enumType decl) (enumType (decl.respan g)) :=
  (alike_variantValues decl.name.name decl.variants (some 0) []).bind_eq fun _ => rfl

theorem alike_conventionOf (modifiers : List Modifier) (seen : Option CallingConvention) :
    SameOutcome g Eq (conventionOf modifiers seen)
      (conventionOf (modifiers.map (Modifier.respan g)) seen) := by
  induction modifiers generalizing seen with
  | nil => rfl
  | cons modifier _ ih =>
    cases modifier with
    | foreign _ _ => exact ih seen
    | convention c _ =>
      exact .ite .rfl rfl (ih _)

theorem alike_libraryOf (modifiers : List Modifier) (seen : Option String) :
    SameOutcome g Eq (libraryOf modifiers seen)
      (libraryOf (modifiers.map (Modifier.respan g)) seen) := by
  induction modifiers generalizing seen with
  | nil => rfl
  | cons modifier _ ih =>
    cases modifier with
    | convention c _ => exact ih seen
    | foreign _ _ =>
      exact .ite .rfl rfl (ih _)

theorem alike_paramTypes (h : names.Alike g names') (params : List Param) :
    SameOutcome g Eq (paramTypes names params)
      (paramTypes names' (params.map (Param.respan g))) := by
  induction params with
  | nil => rfl
  | cons param _ ih =>
    refine (TypeExpr.alike_resolve h param.ty).bind_eq fun ty => ?_
    exact .ite .rfl (param.ty.alike_fault _) (ih.bind_eq fun _ => rfl)

theorem alike_functionType (h : names.Alike g names') (decl : FunctionDecl) :
    SameOutcome g Eq (functionType names decl) (functionType names' (decl.respan g)) := by
  refine (alike_conventionOf decl.modifiers none).bind_eq fun convention => ?_
  exact .ite .rfl rfl ((TypeExpr.alike_resolve h decl.returnType).bind_eq fun _ =>
    (alike_paramTypes h decl.params).bind_eq fun _ => rfl)

/-! ### All declarations -/

variable {tops tops' : List TopLevel}

theorem map_name_bare (tops : List TopLevel) :
    (tops.map TopLevel.bare).map (·.name.name) = tops.map (·.name.name) := by
  simp [Function.comp_def]

theorem nodup_of_perm (hperm : (tops.map TopLevel.bare).Perm tops') :
    (tops.map (·.name.name)).Nodup ↔ (tops'.map (·.name.name)).Nodup := by
  rw [← map_name_bare, (hperm.map (·.name.name)).nodup_iff]

section

variable (hnames : (tops.map (·.name.name)).Nodup) (hperm : (tops.map TopLevel.bare).Perm tops')
include hnames hperm

theorem find?_of_perm (name : String) : find? tops' name = (find? tops name).map TopLevel.bare := by
  have hnames' := (nodup_of_perm hperm).mp hnames
  cases hfind : find? tops name with
  | some top =>
    have hmem : top.bare ∈ tops' :=
      hperm.mem_iff.mp (List.mem_map_of_mem (List.mem_of_find?_eq_some hfind))
    have hname : top.name.name = name := by simpa using List.find?_some hfind
    rw [← hname, ← TopLevel.name_bare]
    exact find?_of_nodup hnames' hmem
  | none =>
    refine List.find?_eq_none.mpr fun top' hmem => ?_
    obtain ⟨top, htop, rfl⟩ := List.mem_map.mp (hperm.mem_iff.mpr hmem)
    simpa using List.find?_eq_none.mp hfind top htop

theorem isStruct_of_perm (name : String) : isStruct tops name = isStruct tops' name := by
  rw [isStruct, isStruct, find?_of_perm hnames hperm]
  cases find? tops name with
  | none => rfl
  | some top => cases top <;> rfl

theorem alike_named (free : Nat) (path : List String) (ident : Ident) :
    SameOutcome .forget Eq (named tops free path ident)
      (named tops' free path (ident.respan .forget)) := by
  induction free generalizing path ident with
  | zero =>
    rw [named, named, Ident.name_respan, find?_of_perm hnames hperm]
    cases find? tops ident.name with
    | none => rfl
    | some top =>
      cases top with
      | function _ => rfl
      | enum decl => exact alike_enumType decl
      | struct _ => exact .ite .rfl rfl rfl
  | succ _ ih =>
    rw [named, named, Ident.name_respan, find?_of_perm hnames hperm]
    cases find? tops ident.name with
    | none => rfl
    | some top =>
      cases top with
      | function _ => rfl
      | enum decl => exact alike_enumType decl
      | struct decl =>
        exact .ite .rfl rfl
          (alike_structType ⟨isStruct_of_perm hnames hperm, ih (ident.name :: path)⟩ decl)

theorem alike_namesInside (path : List String) :
    (namesInside tops path).Alike .forget (namesInside tops' path) := by
  have hlength : tops.length = tops'.length := by simpa using hperm.length_eq
  refine ⟨isStruct_of_perm hnames hperm, fun ident => ?_⟩
  simp only [namesInside, hlength]
  exact alike_named hnames hperm _ path ident

theorem alike_typeOf (top : TopLevel) :
    SameOutcome .forget Eq (typeOf tops top) (typeOf tops' top.bare) := by
  cases top with
  | struct decl => exact alike_structType (alike_namesInside hnames hperm _) decl
  | enum decl => exact alike_enumType decl
  | function decl => exact alike_functionType (alike_namesInside hnames hperm _) decl

end

/-! ### Where checking a unit starts -/

variable {rest : List TopLevel}

theorem declareFrom_of_nodup (next : SymbolId) (scopes : ScopeStack) (hinner : scopes.inner = [])
    (hnames : (rest.map (·.name.name)).Nodup)
    (hfresh : ∀ top ∈ rest, scopes.globals.find? top.name.name = none) :
    ∃ scopes', declareFrom next rest scopes = .ok scopes' ∧
      scopes'.globals.function = scopes.globals.function := by
  induction rest generalizing next scopes with
  | nil => exact ⟨scopes, rfl, rfl⟩
  | cons top rest ih =>
    obtain ⟨hnew, hnames⟩ := List.nodup_cons.mp hnames
    have hfresh' : ∀ other ∈ rest,
        (scopes.globals.insert top.name.name next).find? other.name.name = none := by
      intro other hother
      have hdiffers : ¬other.name.name = top.name.name := by
        intro hname
        exact hnew (List.mem_map.mpr ⟨other, hother, hname⟩)
      rw [Scope.find?_insert, if_neg hdiffers]
      exact hfresh other (by simp [hother])
    obtain ⟨linked, hadd⟩ := ScopeStack.add_of_inner_eq_nil hinner (hfresh top (by simp)) next
    obtain ⟨scopes', _, hfunction⟩ := ih (next + 1) ⟨[], _, linked⟩ rfl hnames hfresh'
    refine ⟨scopes', ?_, hfunction⟩
    rwa [declareFrom, hadd]

/-- The check of a unit of these declarations starts in the context. -/
structure Starts (tops : List TopLevel) (ctx : Context) : Prop where
  declare : declare tops = .ok ctx.scopes
  populate : populate tops = .ok ctx.symbols

theorem Starts.nodup {ctx : Context} (h : Starts tops ctx) : (tops.map (·.name.name)).Nodup :=
  (declare_eq_ok h.declare).2.1

theorem Starts.function_eq {ctx : Context} (h : Starts tops ctx) :
    ctx.scopes.globals.function = none := by
  obtain ⟨_, hdeclare, hfunction⟩ :=
    declareFrom_of_nodup 0 .start rfl h.nodup fun _ _ => rfl
  cases hdeclare.symm.trans h.declare
  exact hfunction

theorem symbolsOf_of_forall (h : ∀ top ∈ rest, ∃ ty, typeOf tops top = .ok ty) :
    ∃ symbols, symbolsOf tops rest = .ok symbols := by
  induction rest with
  | nil => exact ⟨[], rfl⟩
  | cons top _ ih =>
    obtain ⟨ty, hty⟩ := h top (by simp)
    obtain ⟨symbols, hsymbols⟩ := ih fun top htop => h top (by simp [htop])
    exact ⟨_, Typing.bind_eq_ok.mpr ⟨ty, hty, Typing.bind_eq_ok.mpr ⟨symbols, hsymbols, rfl⟩⟩⟩

/-- A unit starts if its names differ and each declaration has a type. -/
theorem exists_starts_iff :
    (∃ ctx, Starts tops ctx) ↔
      (tops.map (·.name.name)).Nodup ∧ ∀ top ∈ tops, ∃ ty, typeOf tops top = .ok ty := by
  constructor
  · rintro ⟨ctx, h⟩
    refine ⟨h.nodup, fun top htop => ?_⟩
    obtain ⟨i, hi, hget⟩ := List.getElem_of_mem htop
    obtain ⟨symbol, -, hsymbol⟩ := symbol_of_decl h.populate (List.getElem?_eq_getElem hi)
    exact ⟨symbol.ty, hget ▸ hsymbol.type⟩
  · rintro ⟨hnames, htypes⟩
    obtain ⟨scopes, hdeclare, -⟩ :=
      declareFrom_of_nodup 0 .start rfl hnames fun _ _ => rfl
    obtain ⟨symbols, hsymbols⟩ := symbolsOf_of_forall htypes
    exact ⟨⟨symbols, scopes⟩, hdeclare, hsymbols⟩

/-- Whether a unit starts does not depend on the order of its declarations. -/
theorem exists_starts_of_perm (hperm : (tops.map TopLevel.bare).Perm tops') :
    (∃ ctx, Starts tops ctx) ↔ ∃ ctx, Starts tops' ctx := by
  rw [exists_starts_iff, exists_starts_iff, nodup_of_perm hperm]
  refine and_congr_right fun hnames' => ?_
  have hnames := (nodup_of_perm hperm).mpr hnames'
  constructor
  · intro htypes top' htop'
    obtain ⟨top, htop, rfl⟩ := List.mem_map.mp (hperm.mem_iff.mpr htop')
    obtain ⟨_, hty⟩ := htypes top htop
    obtain ⟨ty', hty', -⟩ := (alike_typeOf hnames hperm top).exists_right hty
    exact ⟨ty', hty'⟩
  · intro htypes top htop
    obtain ⟨_, hty⟩ := htypes top.bare (hperm.mem_iff.mp (List.mem_map_of_mem htop))
    obtain ⟨ty', hty', -⟩ := (alike_typeOf hnames hperm top).exists_left hty
    exact ⟨ty', hty'⟩

end Declarations

end Laye
