import Laye.Proofs.Typing.Canonical
import Mathlib.Logic.Relation

/-!
# Types in normal form

What the types of a unit have in common, at any depth (`Ty.InNormalForm`): structs are held by name
right behind a pointer, buffer or slice and nowhere else, a name stands for one struct or enum,
sized numbers have a width that there is, arrays have elements, and elements have a value.

`Ty.Normal` says the same by the constructors of a type, together with where the type stands: behind
indirection a struct is a name, and by value it is not. Types that are written down are of this kind
(`TypeExpr.resolve_normal`), and so are those of declarations (`Declarations.normal_symbols`).
-/

namespace Laye

open Typing (bind_eq_ok)

/-! ### Parts of types -/

/-- The type of a constant parameter. -/
def TypeParam.ty? : TypeParam → Option Ty
  | .type _ => none
  | .constant ty _ => some ty

/-- The table has a symbol of the kind and the name, and every such symbol has the type. -/
structure SymbolTable.Defines (symbols : SymbolTable) (kind : SymbolKind) (name : String)
    (ty : Ty) : Prop where
  found : ∃ symbol ∈ symbols, symbol.kind = kind ∧ symbol.name = name
  type_eq : ∀ symbol ∈ symbols, symbol.kind = kind → symbol.name = name → symbol.ty = ty

namespace Ty

/-- The types that a type is made of directly. -/
def children : Ty → List Ty
  | .array element _ _ | .pointer element _ | .buffer element _ | .slice element _ => [element]
  | .function signature =>
    signature.typeParams.filterMap TypeParam.ty? ++ signature.returnType :: signature.paramTypes
  | .struct _ typeParams fields | .union _ typeParams fields =>
    typeParams.filterMap TypeParam.ty? ++ fields.map Prod.snd
  | _ => []

/-- The type occurs in another one, at any depth, or is that type. -/
def IsPart (part whole : Ty) : Prop := Relation.ReflTransGen (fun c u => c ∈ u.children) part whole

/-- Whether values of the type point to values of its element. -/
def isIndirection : Ty → Bool
  | .pointer _ _ | .buffer _ _ | .slice _ _ => true
  | _ => false

/-- Whether values of the type hold or point to values of its element, one after another. -/
def isSequence : Ty → Bool
  | .array _ _ _ | .buffer _ _ | .slice _ _ => true
  | _ => false

/-- What holds of a type at any depth, over the symbols of a unit. -/
structure InNormalForm (symbols : SymbolTable) (ty : Ty) : Prop where
  /-- Right behind indirection, a struct is held by name. -/
  struct_by_value : ∀ (whole : Ty) (name : String) (typeParams : List TypeParam)
    (fields : List (String × Ty)), whole.IsPart ty → whole.isIndirection = true →
    .struct name typeParams fields ∉ whole.children
  /-- Elsewhere, it is not. -/
  reference_behind : (∀ name, ty ≠ .structRef name) ∧
    ∀ (whole : Ty) (name : String), whole.IsPart ty →
    .structRef name ∈ whole.children → whole.isIndirection = true
  reference_declared : ∀ name, (structRef name).IsPart ty →
    ∃ symbol ∈ symbols, symbol.kind = .struct ∧ symbol.name = name
  struct_declared : ∀ name typeParams fields, (struct name typeParams fields).IsPart ty →
    symbols.Defines .struct name (.struct name typeParams fields)
  enum_declared : ∀ name variants, (enum name variants).IsPart ty →
    symbols.Defines .enum name (.enum name variants)
  integer_width : ∀ signed bits, (sizedInt signed bits).IsPart ty → bits ∈ [8, 16, 32, 64]
  float_width : ∀ bits, (sizedFloat bits).IsPart ty → bits ∈ [32, 64]
  capacity : ∀ element capacity access, (array element capacity access).IsPart ty → capacity ≠ 0
  element : ∀ whole : Ty, whole.IsPart ty → whole.isSequence = true → .void ∉ whole.children

/-- Whether the type is one of a keyword. -/
def isKeyword : Ty → Bool
  | .void | .bool | .rune | .int _ | .float | .rawptr | .string => true
  | .sizedInt _ bits => decide (bits ∈ Builtin.integerWidths)
  | .sizedFloat bits => decide (bits ∈ Builtin.floatWidths)
  | _ => false

theorem children_of_isKeyword {ty : Ty} (h : ty.isKeyword = true) : ty.children = [] := by
  cases ty <;> first | rfl | cases h

/-- The type is in normal form, behind indirection or by value. -/
inductive Normal (symbols : SymbolTable) : (behind : Bool) → Ty → Prop where
  | keyword {behind : Bool} {ty : Ty} (hty : ty.isKeyword = true) : Normal symbols behind ty
  | enum {behind : Bool} {name : String} {variants : List (String × Nat)}
      (hname : symbols.Defines .enum name (.enum name variants)) :
      Normal symbols behind (.enum name variants)
  | structRef {name : String} (hname : symbols.IsStruct name) :
      Normal symbols true (.structRef name)
  | struct {name : String} {fields : List (String × Ty)}
      (hname : symbols.Defines .struct name (.struct name [] fields))
      (hfields : ∀ field ∈ fields, Normal symbols false field.2) :
      Normal symbols false (.struct name [] fields)
  | array {behind : Bool} {element : Ty} {capacity : Nat} (access : Access)
      (helement : Normal symbols false element) (hvoid : element.isVoid = false)
      (hcapacity : capacity ≠ 0) : Normal symbols behind (.array element capacity access)
  | pointer {behind : Bool} {element : Ty} (access : Access)
      (helement : Normal symbols true element) :
      Normal symbols behind (.pointer element access)
  | buffer {behind : Bool} {element : Ty} (access : Access) (helement : Normal symbols true element)
      (hvoid : element.isVoid = false) : Normal symbols behind (.buffer element access)
  | slice {behind : Bool} {element : Ty} (access : Access) (helement : Normal symbols true element)
      (hvoid : element.isVoid = false) : Normal symbols behind (.slice element access)
  | function {behind : Bool} {signature : Signature} (hplain : signature.typeParams = [])
      (hreturn : Normal symbols false signature.returnType)
      (hparams : ∀ param ∈ signature.params, Normal symbols false param.2) :
      Normal symbols behind (.function signature)

namespace Normal

variable {symbols symbols' : SymbolTable} {behind : Bool} {ty part : Ty}

theorem of_mem_children (h : ty.Normal symbols behind) (hpart : part ∈ ty.children) :
    part.Normal symbols ty.isIndirection := by
  cases h with
  | keyword hty =>
    rw [children_of_isKeyword hty] at hpart
    cases hpart
  | enum | structRef => cases hpart
  | struct _ hfields =>
    obtain ⟨field, hfield, rfl⟩ := List.mem_map.mp hpart
    exact hfields field hfield
  | array _ helement _ _ | pointer _ helement | buffer _ helement _ | slice _ helement _ =>
    exact List.mem_singleton.mp hpart ▸ helement
  | function hplain hreturn hparams =>
    rw [children, hplain, List.filterMap_nil, List.nil_append] at hpart
    rcases List.mem_cons.mp hpart with rfl | hpart
    · exact hreturn
    · obtain ⟨param, hparam, rfl⟩ := List.mem_map.mp hpart
      exact hparams param hparam

theorem of_isPart (h : ty.Normal symbols behind) (hpart : part.IsPart ty) :
    ∃ behind, part.Normal symbols behind := by
  induction hpart using Relation.ReflTransGen.head_induction_on with
  | refl => exact ⟨behind, h⟩
  | head hchild _ ih =>
    obtain ⟨_, hwhole⟩ := ih
    exact ⟨_, hwhole.of_mem_children hchild⟩

theorem inNormalForm (h : ty.Normal symbols false) : ty.InNormalForm symbols where
  struct_by_value whole name typeParams fields hwhole hbehind hmem := by
    obtain ⟨_, hnormal⟩ := h.of_isPart hwhole
    have hstruct := hnormal.of_mem_children hmem
    rw [hbehind] at hstruct
    cases hstruct with
    | keyword hty => cases hty
  reference_behind := by
    refine ⟨?_, fun whole name hwhole hmem => ?_⟩
    · rintro name rfl
      cases h with
      | keyword hty => cases hty
    · obtain ⟨_, hnormal⟩ := h.of_isPart hwhole
      have href := hnormal.of_mem_children hmem
      generalize whole.isIndirection = behind at href
      cases href with
      | keyword hty => cases hty
      | structRef => rfl
  reference_declared name hpart := by
    obtain ⟨_, hnormal⟩ := h.of_isPart hpart
    cases hnormal with
    | keyword hty => cases hty
    | structRef hname =>
      have hfound : (symbols.find? fun s => s.kind = .struct ∧ s.name = name).isSome = true := by
        simpa [SymbolTable.IsStruct, SymbolTable.structType?] using hname
      obtain ⟨symbol, hfind⟩ := Option.isSome_iff_exists.mp hfound
      exact ⟨symbol, List.mem_of_find?_eq_some hfind, by simpa using List.find?_some hfind⟩
  struct_declared name typeParams fields hpart := by
    obtain ⟨_, hnormal⟩ := h.of_isPart hpart
    cases hnormal with
    | keyword hty => cases hty
    | struct hname _ => exact hname
  enum_declared name variants hpart := by
    obtain ⟨_, hnormal⟩ := h.of_isPart hpart
    cases hnormal with
    | keyword hty => cases hty
    | enum hname => exact hname
  integer_width signed bits hpart := by
    obtain ⟨_, hnormal⟩ := h.of_isPart hpart
    cases hnormal with
    | keyword hty => exact of_decide_eq_true hty
  float_width bits hpart := by
    obtain ⟨_, hnormal⟩ := h.of_isPart hpart
    cases hnormal with
    | keyword hty => exact of_decide_eq_true hty
  capacity element capacity access hpart := by
    obtain ⟨_, hnormal⟩ := h.of_isPart hpart
    cases hnormal with
    | keyword hty => cases hty
    | array _ _ _ hcapacity => exact hcapacity
  element whole hpart hsequence hmem := by
    obtain ⟨_, hnormal⟩ := h.of_isPart hpart
    cases hnormal with
    | array _ _ hvoid _ | buffer _ _ hvoid | slice _ _ hvoid =>
      rw [← List.mem_singleton.mp hmem] at hvoid
      cases hvoid
    | keyword hty =>
      rw [children_of_isKeyword hty] at hmem
      cases hmem
    | _ => cases hsequence

/-! ### Ways to make types -/

theorem isStruct_of_defines {name : String} (h : symbols.Defines .struct name ty) :
    symbols.IsStruct name := by
  obtain ⟨_, hmem, hkind, rfl⟩ := h.found
  exact SymbolTable.isStruct_of_mem hmem hkind

/-- Where a type stands only matters for structs. -/
theorem moved (h : ty.Normal symbols behind) (hstruct : ∀ name fields, ty ≠ .struct name [] fields)
    (href : ∀ name, ty ≠ .structRef name) (behind' : Bool) : ty.Normal symbols behind' := by
  cases h with
  | struct => exact absurd rfl (hstruct _ _)
  | structRef => exact absurd rfl (href _)
  | keyword hty => exact .keyword hty
  | enum hname => exact .enum hname
  | array access helement hvoid hcapacity => exact .array access helement hvoid hcapacity
  | pointer access helement => exact .pointer access helement
  | buffer access helement hvoid => exact .buffer access helement hvoid
  | slice access helement hvoid => exact .slice access helement hvoid
  | function hplain hreturn hparams => exact .function hplain hreturn hparams

theorem indirect (h : ty.Normal symbols false) : ty.indirect.Normal symbols true := by
  cases ty with
  | struct =>
    cases h with
    | struct hname _ => exact .structRef (isStruct_of_defines hname)
    | keyword hty => cases hty
  | structRef =>
    cases h with
    | keyword hty => cases hty
  | _ => exact h.moved (by simp) (by simp) true

theorem pointerTo (h : ty.Normal symbols false) (access : Access) :
    (Ty.pointerTo ty access).Normal symbols false :=
  .pointer access h.indirect

theorem isUntyped (h : ty.Normal symbols behind) : ty.isUntyped = false := by
  cases h with
  | keyword hty => cases ty <;> first | rfl | cases hty
  | _ => rfl

theorem cString : Ty.cString.Normal symbols behind :=
  .buffer _ (.keyword (by decide)) rfl

end Normal

end Ty

/-! ### Adding variables -/

variable {symbols symbols' : SymbolTable}

theorem SymbolTable.Extends.defines (h : symbols.Extends symbols') {kind : SymbolKind}
    (hkind : kind ≠ .binding) {name : String} {ty : Ty} (hty : symbols.Defines kind name ty) :
    symbols'.Defines kind name ty := by
  obtain ⟨symbol, hmem, hsymbol⟩ := hty.found
  refine ⟨⟨symbol, h.mem hmem, hsymbol⟩, fun other hother hkind' hname => ?_⟩
  obtain ⟨_, rfl, hlocals⟩ := h
  rcases List.mem_append.mp hother with hother | hother
  · exact hty.type_eq other hother hkind' hname
  · exact absurd ((hlocals other hother).symm.trans hkind').symm hkind

theorem Ty.Normal.mono (hsymbols : symbols.Extends symbols') {behind : Bool} {ty : Ty}
    (h : ty.Normal symbols behind) : ty.Normal symbols' behind := by
  induction h with
  | keyword hty => exact .keyword hty
  | enum hname => exact .enum (hsymbols.defines (by decide) hname)
  | structRef hname => exact .structRef (hsymbols.isStruct_eq ▸ hname)
  | struct hname _ ih => exact .struct (hsymbols.defines (by decide) hname) ih
  | array access _ hvoid hcapacity ih => exact .array access ih hvoid hcapacity
  | pointer access _ ih => exact .pointer access ih
  | buffer access _ hvoid ih => exact .buffer access ih hvoid
  | slice access _ hvoid ih => exact .slice access ih hvoid
  | function hplain _ _ ihreturn ihparams => exact .function hplain ihreturn ihparams

/-! ### Written types -/

theorem Builtin.isKeyword_of_ofKeyword {keyword : String} {ty : Ty}
    (h : Builtin.ofKeyword keyword = .type ty) : ty.isKeyword = true := by
  have hall : ∀ ty ∈ plainTypes ++ sizedTypes, ty.isKeyword = true := by decide
  exact hall ty (mem_types_of_ofKeyword h)

/-- Names mean types in normal form, and those of structs are known. -/
structure TypeNames.Normal (names : TypeNames) (symbols : SymbolTable) : Prop where
  struct : ∀ name, names.isStruct name = true → symbols.IsStruct name
  type : ∀ ident ty, names.resolve ident = .ok ty → ty.Normal symbols false

namespace TypeExpr

variable {names : TypeNames} {symbols : SymbolTable} {element : TypeExpr} {ty ty' : Ty}

theorem isVoid_of_nonVoid (h : nonVoid element ty = .ok ty') : ty'.isVoid = false := by
  unfold nonVoid at h
  split at h
  · cases h
  · rename_i hvoid
    cases h
    simpa using hvoid

theorem behind_normal (hnames : names.Normal symbols)
    (helement : ∀ ty, element.resolve names = .ok ty → ty.Normal symbols false)
    (h : resolve.behind names element (fun _ => element.resolve names) = .ok ty) :
    ty.indirect.Normal symbols true := by
  unfold resolve.behind at h
  split at h
  · rename_i _ hname
    cases h
    unfold namedStruct? at hname
    split at hname
    · split at hname
      · rename_i hstruct
        cases hname
        exact .structRef (hnames.struct _ hstruct)
      · cases hname
    · cases hname
  · exact (helement ty h).indirect

theorem isVoid_indirect (h : ty.isVoid = false) : ty.indirect.isVoid = false := by
  cases ty <;> first | rfl | cases h

/-- A written type that has a meaning means a type in normal form. -/
theorem resolve_normal (hnames : names.Normal symbols) :
    names.Resolves (Ty.Normal symbols false) := by
  intro t
  induction t with
  | builtin keyword _ =>
    intro ty h
    simp only [resolve, resolveBuiltin] at h
    split at h
    · rename_i hkeyword
      cases h
      exact .keyword (Builtin.isKeyword_of_ofKeyword hkeyword)
    · cases h
    · cases h
  | named ident => exact hnames.type ident
  | pointer _ access _ ih =>
    intro ty h
    obtain ⟨_, hinner, h⟩ := bind_eq_ok.mp h
    cases h
    exact .pointer access (behind_normal hnames ih hinner)
  | buffer _ access _ ih =>
    intro ty h
    obtain ⟨_, hinner, h⟩ := bind_eq_ok.mp h
    obtain ⟨_, hvoid, h⟩ := bind_eq_ok.mp h
    cases h
    have hnormal := behind_normal hnames ih hinner
    rw [← nonVoid_eq_ok hvoid] at hnormal
    exact .buffer access hnormal (isVoid_indirect (isVoid_of_nonVoid hvoid))
  | slice _ access _ ih =>
    intro ty h
    obtain ⟨_, hinner, h⟩ := bind_eq_ok.mp h
    obtain ⟨_, hvoid, h⟩ := bind_eq_ok.mp h
    cases h
    have hnormal := behind_normal hnames ih hinner
    rw [← nonVoid_eq_ok hvoid] at hnormal
    exact .slice access hnormal (isVoid_indirect (isVoid_of_nonVoid hvoid))
  | array _ _ access _ ih =>
    intro ty h
    obtain ⟨inner, hinner, h⟩ := bind_eq_ok.mp h
    obtain ⟨_, hvoid, h⟩ := bind_eq_ok.mp h
    split at h
    · cases h
    · rename_i hcapacity
      cases h
      have hnormal := ih inner hinner
      rw [← nonVoid_eq_ok hvoid] at hnormal
      exact .array access hnormal (isVoid_of_nonVoid hvoid) hcapacity

end TypeExpr

/-! ### Declarations -/

namespace Declarations

variable {decls : List TopLevel} {symbols : SymbolTable}

section

variable (hnodup : (decls.map (·.name.name)).Nodup) (hpopulate : populate decls = .ok symbols)
include hnodup hpopulate

theorem defines_of_typeOf {decl : TopLevel} (hdecl : decl ∈ decls) {ty : Ty}
    (hty : typeOf decls decl = .ok ty) : symbols.Defines (kind decl) decl.name.name ty := by
  obtain ⟨i, hi, hget⟩ := List.getElem_of_mem hdecl
  obtain ⟨symbol, hsymbol, his⟩ := symbol_of_decl hpopulate (hget ▸ List.getElem?_eq_getElem hi)
  refine ⟨⟨symbol, List.mem_of_getElem? hsymbol, his.kind_eq, his.name_eq⟩, ?_⟩
  intro other hother _ hname
  obtain ⟨j, hj, hget'⟩ := List.getElem_of_mem hother
  obtain ⟨_, hdecl', his'⟩ := decl_of_symbol hpopulate (hget' ▸ List.getElem?_eq_getElem hj)
  have hsame := find?_of_nodup hnodup (List.mem_of_getElem? hdecl')
  rw [← his'.name_eq, hname, find?_of_nodup hnodup hdecl] at hsame
  cases hsame
  exact Except.ok.inj (his'.type.symm.trans hty)

theorem isStruct_symbols {name : String} (h : isStruct decls name = true) :
    symbols.IsStruct name := by
  unfold isStruct at h
  split at h
  · rename_i _ hfind
    have hname := (find?_struct hfind).1
    obtain ⟨ty, hty, -⟩ := structType?_of_find? hnodup hpopulate (hname ▸ hfind)
    rw [hname] at hty
    exact Option.isSome_iff_exists.mpr ⟨ty, hty⟩
  · cases h

theorem passes_normal : Passes decls (Ty.Normal symbols false) where
  written _ hstruct htype :=
    TypeExpr.resolve_normal
      ⟨fun _ hname => isStruct_symbols hnodup hpopulate (hstruct ▸ hname), htype⟩
  enum decl ty hdecl hty := by
    have hdefines := defines_of_typeOf hnodup hpopulate (List.mem_of_find?_eq_some hdecl) hty
    obtain ⟨_, rfl⟩ := enumType_eq_ok hty
    exact .enum hdefines
  struct free path decl ty hdecl hty hfields := by
    obtain ⟨_, -, hty'⟩ := structType?_of_find? hnodup hpopulate hdecl
    -- The type does not depend on the structs in which the name is met.
    have hnames : TypeNames.Agree ⟨isStruct decls, named decls free path⟩
        (namesInside decls [decl.name.name]) := ⟨rfl, fun _ _ _ => named_agree⟩
    cases structType_agree hnames hty hty'
    have hdefines := defines_of_typeOf hnodup hpopulate (List.mem_of_find?_eq_some hdecl) hty'
    obtain ⟨fields, -, hty⟩ := bind_eq_ok.mp hty
    cases hty
    exact .struct hdefines (hfields fields rfl)

theorem normal_symbols : ∀ symbol ∈ symbols, symbol.ty.Normal symbols false := by
  intro symbol hmem
  obtain ⟨i, hi, rfl⟩ := List.getElem_of_mem hmem
  obtain ⟨_, hd, his⟩ := decl_of_symbol hpopulate (List.getElem?_eq_getElem hi)
  exact typeOf_gives (passes_normal hnodup hpopulate) (fun _ => .function)
    (find?_of_nodup hnodup (List.mem_of_getElem? hd)) his.type

end

end Declarations

end Laye
