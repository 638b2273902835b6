import Laye.Proofs.Typing.Expression
import Laye.Proofs.Typing.Keywords
import Laye.Typing.Program

/-!
# Declarations are sound

The first two steps of checking a unit leave a sound context (`Declarations.sound_context`): every
declaration is found under its name and nowhere else (`Declarations.declare_eq_ok`), its symbol has
its name, its kind and its type (`Declarations.populate_eq_ok`), and the types are settled
(`Declarations.typeOf_gives`, for any property that passes on from types to what is made of them).
-/

namespace Laye

open Typing (bind_eq_ok unless_eq_ok)

/-! ### Written types -/

/-- Whether the type is that of a keyword. -/
def Ty.isBasic : Ty → Bool
  | .void | .bool | .rune | .int _ | .sizedInt _ _ | .float | .sizedFloat _ | .rawptr | .string =>
    true
  | _ => false

theorem Builtin.isBasic_of_ofKeyword {keyword : String} {ty : Ty}
    (h : Builtin.ofKeyword keyword = .type ty) : ty.isBasic = true := by
  have hall : ∀ ty ∈ plainTypes ++ sizedTypes, ty.isBasic = true := by decide
  exact hall ty (mem_types_of_ofKeyword h)

/-- The property passes on to the types that can be written down, from those they are made of. -/
structure Ty.Closed (P : Ty → Prop) : Prop where
  basic : ∀ ty : Ty, ty.isBasic = true → P ty
  enum : ∀ name variants, P (.enum name variants)
  pointer : ∀ ty access, P ty → P (.pointerTo ty access)
  buffer : ∀ ty access, P ty → P (.bufferOf ty access)
  slice : ∀ ty access, P ty → P (.sliceOf ty access)
  array : ∀ ty capacity access, P ty → P (.array ty capacity access)

theorem Ty.closed_grounded (isStruct : String → Prop) : Ty.Closed (Ty.Grounded isStruct) where
  basic ty h := by cases ty <;> trivial
  enum _ _ := trivial
  pointer _ _ h := h.indirect
  buffer _ _ h := h.indirect
  slice _ _ h := h.indirect
  array _ _ _ h := h

/-- The written types that have a meaning have the property. -/
def TypeNames.Resolves (names : TypeNames) (P : Ty → Prop) : Prop :=
  ∀ (t : TypeExpr) (ty : Ty), t.resolve names = .ok ty → P ty

/-- What type names mean has the property. -/
structure TypeNames.Gives (names : TypeNames) (P : Ty → Prop) : Prop where
  struct : ∀ name, names.isStruct name = true → P (.structRef name)
  type : ∀ ident ty, names.resolve ident = .ok ty → P ty

namespace TypeExpr

variable {names : TypeNames} {P : Ty → Prop}

variable {element : TypeExpr}

theorem nonVoid_eq_ok {ty ty' : Ty} (h : nonVoid element ty = .ok ty') : ty' = ty := by
  unfold nonVoid at h
  split at h
  · cases h
  · exact (Except.ok.inj h).symm

theorem behind_gives (hnames : names.Gives P) {ty : Ty}
    (helement : ∀ ty, element.resolve names = .ok ty → P ty)
    (h : resolve.behind names element (fun _ => element.resolve names) = .ok ty) : P ty := by
  unfold resolve.behind at h
  split at h
  · rename_i _ hname
    cases h
    unfold namedStruct? at hname
    split at hname
    · split at hname
      · rename_i hstruct
        cases hname
        exact hnames.struct _ hstruct
      · cases hname
    · cases hname
  · exact helement ty h

/-- A written type has each property that its names have and that is closed. -/
theorem resolve_gives (hP : Ty.Closed P) (hnames : names.Gives P) (t : TypeExpr) {ty : Ty}
    (h : t.resolve names = .ok ty) : P ty := by
  induction t generalizing ty with
  | builtin _ _ =>
    simp only [resolve, resolveBuiltin] at h
    split at h
    · rename_i hkeyword
      cases h
      exact hP.basic _ (Builtin.isBasic_of_ofKeyword hkeyword)
    · cases h
    · cases h
  | named ident => exact hnames.type ident ty h
  | pointer _ _ _ ih =>
    obtain ⟨_, hinner, h⟩ := bind_eq_ok.mp h
    cases h
    exact hP.pointer _ _ (behind_gives hnames (fun _ => ih) hinner)
  | buffer _ _ _ ih =>
    obtain ⟨_, hinner, h⟩ := bind_eq_ok.mp h
    obtain ⟨_, hinner', h⟩ := bind_eq_ok.mp h
    cases h
    rw [nonVoid_eq_ok hinner']
    exact hP.buffer _ _ (behind_gives hnames (fun _ => ih) hinner)
  | slice _ _ _ ih =>
    obtain ⟨_, hinner, h⟩ := bind_eq_ok.mp h
    obtain ⟨_, hinner', h⟩ := bind_eq_ok.mp h
    cases h
    rw [nonVoid_eq_ok hinner']
    exact hP.slice _ _ (behind_gives hnames (fun _ => ih) hinner)
  | array _ _ _ _ ih =>
    obtain ⟨_, hinner, h⟩ := bind_eq_ok.mp h
    obtain ⟨_, hinner', h⟩ := bind_eq_ok.mp h
    split at h
    · cases h
    · cases h
      rw [nonVoid_eq_ok hinner']
      exact hP.array _ _ _ (ih hinner)

end TypeExpr

theorem TypeNames.Gives.resolves {names : TypeNames} {P : Ty → Prop} (h : names.Gives P)
    (hP : Ty.Closed P) : names.Resolves P :=
  fun t _ => TypeExpr.resolve_gives hP h t

namespace Declarations

variable {decls : List TopLevel} {names : TypeNames} {P : Ty → Prop}

/-! ### The types of declarations -/

theorem fieldTypes_gives (hnames : names.Resolves P) {struct : String}
    {fields : List Param} {done result : List (String × Ty)} (hdone : ∀ field ∈ done, P field.2)
    (h : fieldTypes names struct fields done = .ok result) : ∀ field ∈ result, P field.2 := by
  induction fields generalizing done with
  | nil =>
    cases h
    exact hdone
  | cons _ _ ih =>
    obtain ⟨_, hty, h⟩ := bind_eq_ok.mp (unless_eq_ok h)
    refine ih ?_ (unless_eq_ok h)
    intro f hf
    rcases List.mem_append.mp hf with hf | hf
    · exact hdone f hf
    · rw [List.mem_singleton.mp hf]
      exact hnames _ _ hty

variable {decl : TopLevel} {ty : Ty} {symbol : Symbol} {rest : List TopLevel}
  {symbols : SymbolTable} {i : Nat} {scopes : ScopeStack}

theorem structType_eq_ok (hnames : names.Resolves P) {decl : StructDecl}
    (h : structType names decl = .ok ty) :
    ∃ fields, ty = .struct decl.name.name [] fields ∧ ∀ field ∈ fields, P field.2 := by
  obtain ⟨fields, hfields, h⟩ := bind_eq_ok.mp h
  cases h
  exact ⟨fields, rfl, fieldTypes_gives hnames (by simp) hfields⟩

theorem enumType_eq_ok {decl : EnumDecl} (h : enumType decl = .ok ty) :
    ∃ variants, ty = .enum decl.name.name variants := by
  obtain ⟨variants, _, h⟩ := bind_eq_ok.mp h
  cases h
  exact ⟨variants, rfl⟩

theorem find?_struct {name : String} {decl : StructDecl}
    (h : find? decls name = some (.struct decl)) :
    decl.name.name = name ∧ isStruct decls name = true := by
  have hname := List.find?_some h
  exact ⟨by simpa [TopLevel.name] using hname, by simp [isStruct, h]⟩

/-- The property holds of the structs of a unit, by name and with their fields, if it holds of the
fields. -/
structure HoldsOfStructs (decls : List TopLevel) (P : Ty → Prop) : Prop where
  reference : ∀ name, isStruct decls name = true → P (.structRef name)
  struct : ∀ free path decl ty, find? decls decl.name.name = some (.struct decl) →
    structType ⟨isStruct decls, named decls free path⟩ decl = .ok ty →
    (∀ fields, ty = .struct decl.name.name [] fields → ∀ field ∈ fields, P field.2) → P ty

/-- The property passes on from what names stand for to what is written with them, and holds of the
enums and, if it holds of their fields, of the structs of a unit. -/
structure Passes (decls : List TopLevel) (P : Ty → Prop) : Prop where
  written : ∀ names : TypeNames, names.isStruct = isStruct decls →
    (∀ ident ty, names.resolve ident = .ok ty → P ty) → names.Resolves P
  enum : ∀ decl ty, find? decls decl.name.name = some (.enum decl) → enumType decl = .ok ty → P ty
  struct : ∀ free path decl ty, find? decls decl.name.name = some (.struct decl) →
    structType ⟨isStruct decls, named decls free path⟩ decl = .ok ty →
    (∀ fields, ty = .struct decl.name.name [] fields → ∀ field ∈ fields, P field.2) → P ty

theorem HoldsOfStructs.passes (h : HoldsOfStructs decls P) (hP : Ty.Closed P) : Passes decls P where
  written _ hstruct htype :=
    TypeNames.Gives.resolves ⟨fun name hname => h.reference name (hstruct ▸ hname), htype⟩ hP
  enum _ _ _ hty := by
    obtain ⟨_, rfl⟩ := enumType_eq_ok hty
    exact hP.enum _ _
  struct := h.struct

theorem Passes.enum_of_find? (h : Passes decls P) {name : String} {decl : EnumDecl}
    (hdecl : find? decls name = some (.enum decl)) (hty : enumType decl = .ok ty) : P ty := by
  have hname : decl.name.name = name := by simpa [TopLevel.name] using List.find?_some hdecl
  exact h.enum decl ty (hname ▸ hdecl) hty

/-- A property of the declarations of a unit passes on to what a name stands for, whatever structs
it is met in. -/
theorem named_gives (hP : Passes decls P) (free : Nat) (path : List String) {ident : Ident}
    (h : named decls free path ident = .ok ty) : P ty := by
  induction free generalizing path ident ty with
  | zero =>
    unfold named at h
    split at h
    · cases h
    · cases h
    · rename_i _ hdecl
      exact hP.enum_of_find? hdecl h
    · split at h <;> cases h
  | succ _ ih =>
    unfold named at h
    split at h
    · cases h
    · cases h
    · rename_i decl hdecl
      exact hP.enum_of_find? hdecl h
    · rename_i decl hdecl
      split at h
      · cases h
      · refine hP.struct _ _ decl ty ((find?_struct hdecl).1 ▸ hdecl) h ?_
        obtain ⟨_, rfl, hfields⟩ :=
          structType_eq_ok (hP.written ⟨_, _⟩ rfl fun _ _ => ih _) h
        rintro _ ⟨⟩
        exact hfields

theorem namesInside_resolves (hP : Passes decls P) (path : List String) :
    (namesInside decls path).Resolves P :=
  hP.written _ rfl fun _ _ => named_gives hP _ _

theorem paramTypes_gives (hnames : names.Resolves P) {params : List Param}
    {result : List (String × Ty)} (h : paramTypes names params = .ok result) :
    result.length = params.length ∧ ∀ param ∈ result, P param.2 := by
  induction params generalizing result with
  | nil =>
    cases h
    exact ⟨rfl, by simp⟩
  | cons _ _ ih =>
    obtain ⟨_, hty, h⟩ := bind_eq_ok.mp h
    obtain ⟨_, hrest, h⟩ := bind_eq_ok.mp (unless_eq_ok h)
    cases h
    obtain ⟨hlength, hgives⟩ := ih hrest
    refine ⟨by simp [hlength], fun param' hparam => ?_⟩
    rcases List.mem_cons.mp hparam with rfl | hparam
    · exact hnames _ _ hty
    · exact hgives param' hparam

theorem functionType_eq_ok (hnames : names.Resolves P) {decl : FunctionDecl}
    (h : functionType names decl = .ok ty) :
    ∃ signature, ty = .function signature ∧ signature.typeParams = [] ∧
      signature.params.length = decl.params.length ∧ P signature.returnType ∧
        ∀ param ∈ signature.params, P param.2 := by
  obtain ⟨_, -, h⟩ := bind_eq_ok.mp h
  obtain ⟨_, hreturn, h⟩ := bind_eq_ok.mp (unless_eq_ok h)
  obtain ⟨_, hparams, h⟩ := bind_eq_ok.mp h
  cases h
  obtain ⟨hlength, hgives⟩ := paramTypes_gives hnames hparams
  exact ⟨_, rfl, rfl, hlength, hnames _ _ hreturn, hgives⟩

theorem typeOf_gives (hP : Passes decls P)
    (hfunction : ∀ signature : Signature, signature.typeParams = [] → P signature.returnType →
      (∀ param ∈ signature.params, P param.2) → P (.function signature))
    (hdecl : find? decls decl.name.name = some decl)
    (h : typeOf decls decl = .ok ty) : P ty := by
  cases decl with
  | struct decl =>
    refine hP.struct _ _ decl ty hdecl h ?_
    obtain ⟨_, rfl, hfields⟩ := structType_eq_ok (namesInside_resolves hP _) h
    rintro _ ⟨⟩
    exact hfields
  | enum decl => exact hP.enum decl ty hdecl h
  | function _ =>
    obtain ⟨signature, rfl, hplain, -, hreturn, hparams⟩ :=
      functionType_eq_ok (namesInside_resolves hP _) h
    exact hfunction signature hplain hreturn hparams

theorem holdsOfStructs_grounded {isStruct : String → Prop}
    (hstructs : ∀ name, Declarations.isStruct decls name = true → isStruct name) :
    HoldsOfStructs decls (Ty.Grounded isStruct) where
  reference := hstructs
  struct free path decl ty hdecl h hfields := by
    obtain ⟨fields, -, h⟩ := bind_eq_ok.mp h
    cases h
    exact ⟨hstructs _ (find?_struct hdecl).2, Ty.fieldsGrounded_of_forall (hfields fields rfl)⟩

/-! ### Symbols -/

/-- The symbol of a declaration. -/
structure IsSymbol (decls : List TopLevel) (decl : TopLevel) (symbol : Symbol) : Prop where
  name_eq : symbol.name = decl.name.name
  kind_eq : symbol.kind = kind decl
  type : typeOf decls decl = .ok symbol.ty

theorem IsSymbol.of_function {decl : FunctionDecl} (h : IsSymbol decls (.function decl) symbol) :
    ∃ signature, symbol.signature? = some signature ∧
      signature.params.length = decl.params.length := by
  obtain ⟨signature, hty, -, hcount, -⟩ :=
    functionType_eq_ok (P := fun _ => True) (fun _ _ _ => trivial) h.type
  refine ⟨signature, ?_, hcount⟩
  rw [Symbol.signature?, h.kind_eq, hty]
  rfl

theorem IsSymbol.of_struct {decl : StructDecl} (h : IsSymbol decls (.struct decl) symbol) :
    ∃ fields, symbol.ty = .struct decl.name.name [] fields := by
  obtain ⟨fields, -, hty⟩ := bind_eq_ok.mp h.type
  exact ⟨fields, (Except.ok.inj hty).symm⟩

theorem symbolsOf_eq_ok (h : symbolsOf decls rest = .ok symbols) :
    List.Forall₂ (IsSymbol decls) rest symbols := by
  induction rest generalizing symbols with
  | nil =>
    cases h
    exact .nil
  | cons _ _ ih =>
    obtain ⟨_, hty, h⟩ := bind_eq_ok.mp h
    obtain ⟨_, hsymbols', h⟩ := bind_eq_ok.mp h
    cases h
    exact .cons ⟨rfl, rfl, hty⟩ (ih hsymbols')

theorem populate_eq_ok (h : populate decls = .ok symbols) :
    List.Forall₂ (IsSymbol decls) decls symbols :=
  symbolsOf_eq_ok h

/-- Each declaration has its symbol at its own place. -/
theorem symbol_of_decl (h : populate decls = .ok symbols) (hdecl : decls[i]? = some decl) :
    ∃ symbol, symbols[i]? = some symbol ∧ IsSymbol decls decl symbol := by
  have hall := List.forall₂_iff_get.mp (populate_eq_ok h)
  obtain ⟨hi, rfl⟩ := List.getElem?_eq_some_iff.mp hdecl
  have hi' : i < symbols.length := hall.1 ▸ hi
  exact ⟨symbols[i], List.getElem?_eq_getElem hi', hall.2 i hi hi'⟩

/-- Each symbol is that of the declaration at its place. -/
theorem decl_of_symbol (h : populate decls = .ok symbols) (hsymbol : symbols[i]? = some symbol) :
    ∃ decl, decls[i]? = some decl ∧ IsSymbol decls decl symbol := by
  have hall := List.forall₂_iff_get.mp (populate_eq_ok h)
  obtain ⟨hi, rfl⟩ := List.getElem?_eq_some_iff.mp hsymbol
  have hi' : i < decls.length := hall.1.symm ▸ hi
  exact ⟨decls[i], List.getElem?_eq_getElem hi', hall.2 i hi' hi⟩

/-! ### Names -/

/-- What declaring names in the global scope leaves: the names of before and, after them, those of
the declarations at their places, no two of them alike. -/
theorem declareFrom_eq_ok {next : SymbolId} {scopes' : ScopeStack} (hinner : scopes.inner = [])
    (h : declareFrom next rest scopes = .ok scopes') :
    scopes'.inner = [] ∧ (rest.map (·.name.name)).Nodup ∧
      (∀ decl ∈ rest, scopes.globals.find? decl.name.name = none) ∧
      ∀ name, scopes'.globals.find? name = (scopes.globals.find? name).or
        ((rest.findIdx? (·.name.name == name)).map (next + ·)) := by
  induction rest generalizing next scopes with
  | nil =>
    cases h
    simp [hinner]
  | cons decl rest ih =>
    rw [declareFrom] at h
    cases hfind : scopes.globals.find? decl.name.name with
    | some _ => simp [ScopeStack.add_eq_none hinner hfind] at h
    | none =>
      obtain ⟨_, hadd⟩ := ScopeStack.add_of_inner_eq_nil hinner hfind next
      rw [hadd] at h
      obtain ⟨hinner', hnodup, hfresh, hnames⟩ := ih rfl h
      simp only [Scope.find?_insert] at hfresh hnames
      have hdiffers : ∀ d ∈ rest, d.name.name ≠ decl.name.name ∧
          scopes.globals.find? d.name.name = none := by
        intro d hd
        have hnone := hfresh d hd
        split at hnone
        · cases hnone
        · exact ⟨by assumption, hnone⟩
      refine ⟨hinner', ?_, ?_, ?_⟩
      · refine List.nodup_cons.mpr ⟨?_, hnodup⟩
        intro hmem
        obtain ⟨d, hd, hname⟩ := List.mem_map.mp hmem
        exact (hdiffers d hd).1 hname
      · intro d hd
        rcases List.mem_cons.mp hd with rfl | hd
        · exact hfind
        · exact (hdiffers d hd).2
      · intro name
        rw [hnames name, List.findIdx?_cons]
        by_cases hname : name = decl.name.name
        · subst hname
          simp [hfind]
        · have hne : (decl.name.name == name) = false := by simpa using Ne.symm hname
          simp [hname, hne, Option.map_map, Function.comp_def, Nat.add_assoc, Nat.add_comm 1]

/-- Declared names differ, and each is found at the place of its declaration. -/
theorem declare_eq_ok (h : declare decls = .ok scopes) :
    scopes.inner = [] ∧ (decls.map (·.name.name)).Nodup ∧
      ∀ name, scopes.globals.find? name = decls.findIdx? (·.name.name == name) := by
  obtain ⟨hinner, hnodup, -, hnames⟩ := declareFrom_eq_ok rfl h
  refine ⟨hinner, hnodup, fun name => ?_⟩
  simpa [ScopeStack.start, Scope.empty, Scope.find?] using hnames name

theorem findIdx?_of_nodup (hnodup : (decls.map (·.name.name)).Nodup)
    (hdecl : decls[i]? = some decl) : decls.findIdx? (·.name.name == decl.name.name) = some i := by
  obtain ⟨hi, rfl⟩ := List.getElem?_eq_some_iff.mp hdecl
  refine List.findIdx?_eq_some_iff_getElem.mpr ⟨hi, by simp, fun j hj => ?_⟩
  have hne := List.nodup_iff_pairwise_ne.mp hnodup
  have hdiffers := List.pairwise_iff_getElem.mp hne j i (by simpa using Nat.lt_trans hj hi)
    (by simpa using hi) hj
  simpa using hdiffers

theorem place_eq (hnodup : (decls.map (·.name.name)).Nodup) {j : Nat} {decl' : TopLevel}
    (hdecl : decls[i]? = some decl) (hdecl' : decls[j]? = some decl')
    (hname : decl.name.name = decl'.name.name) : i = j := by
  have hi := findIdx?_of_nodup hnodup hdecl
  have hj := findIdx?_of_nodup hnodup hdecl'
  rw [hname] at hi
  exact Option.some.inj (hi.symm.trans hj)

theorem place_of_drop (h : decls.drop i = decl :: rest) :
    decls[i]? = some decl ∧ decls.drop (i + 1) = rest := by
  rw [← List.head?_drop, ← List.tail_drop, h]
  exact ⟨rfl, rfl⟩

/-- A declaration is found by its name if names differ. -/
theorem find?_of_nodup (hnodup : (decls.map (·.name.name)).Nodup) (hdecl : decl ∈ decls) :
    find? decls decl.name.name = some decl := by
  obtain ⟨i, hi, rfl⟩ := List.getElem_of_mem hdecl
  have hidx := List.findIdx?_eq_some_iff_getElem.mp
    (findIdx?_of_nodup hnodup (List.getElem?_eq_getElem hi))
  obtain ⟨_, hp, hbefore⟩ := hidx
  exact List.find?_eq_some_iff_getElem.mpr ⟨hp, i, hi, rfl, fun j hj => by simpa using hbefore j hj⟩

/-! ### The context of a unit -/

/-- The context in which a unit starts is sound. -/
theorem sound_context (hdeclare : declare decls = .ok scopes)
    (hpopulate : populate decls = .ok symbols) : Context.Sound ⟨symbols, scopes⟩ := by
  obtain ⟨hinner, hnodup, hnames⟩ := declare_eq_ok hdeclare
  have hglobal : ∀ name id, scopes.lookupGlobal name = some id →
      symbols.Named name id := by
    intro name id hid
    rw [ScopeStack.lookupGlobal, hnames] at hid
    obtain ⟨hlt, hname, -⟩ := List.findIdx?_eq_some_iff_getElem.mp hid
    obtain ⟨symbol, hs, his⟩ := symbol_of_decl hpopulate (List.getElem?_eq_getElem hlt)
    exact ⟨symbol, hs, his.name_eq.trans (by simpa using hname)⟩
  have hstructs : ∀ name, Declarations.isStruct decls name = true → symbols.IsStruct name := by
    intro name hname
    unfold Declarations.isStruct at hname
    split at hname
    · rename_i _ hfind
      obtain ⟨i, hi, hget⟩ := List.getElem_of_mem (List.mem_of_find?_eq_some hfind)
      obtain ⟨symbol, hs, his⟩ :=
        symbol_of_decl hpopulate (hget ▸ List.getElem?_eq_getElem hi)
      have hname' : symbol.name = name := his.name_eq.trans (find?_struct hfind).1
      exact hname' ▸ SymbolTable.isStruct_of_mem (List.mem_of_getElem? hs) his.kind_eq
    · cases hname
  refine ⟨?_, by simp [hinner], hglobal, ?_⟩
  · intro symbol hmem
    obtain ⟨i, hi, rfl⟩ := List.getElem_of_mem hmem
    obtain ⟨_, hd, his⟩ := decl_of_symbol hpopulate (List.getElem?_eq_getElem hi)
    exact typeOf_gives ((holdsOfStructs_grounded hstructs).passes (Ty.closed_grounded _))
      (fun signature _ hreturn hparams => Signature.grounded_iff.mpr
        ⟨hreturn, Ty.fieldsGrounded_of_forall hparams⟩)
      (find?_of_nodup hnodup (List.mem_of_getElem? hd)) his.type
  · intro name hname
    obtain ⟨symbol, hfind⟩ := Option.isSome_iff_exists.mp
      (by simpa [SymbolTable.IsStruct, SymbolTable.structType?] using hname :
        (symbols.find? fun s => s.kind = .struct ∧ s.name = name).isSome = true)
    have hp := List.find?_some hfind
    simp only [Bool.decide_and, Bool.and_eq_true, decide_eq_true_eq] at hp
    obtain ⟨i, hi, hget⟩ := List.getElem_of_mem (List.mem_of_find?_eq_some hfind)
    have hs : symbols[i]? = some symbol := hget ▸ List.getElem?_eq_getElem hi
    obtain ⟨_, hd, his⟩ := decl_of_symbol hpopulate hs
    have hlookup : scopes.lookupGlobal name = some i := by
      rw [ScopeStack.lookupGlobal, hnames, ← hp.2, his.name_eq]
      exact findIdx?_of_nodup hnodup hd
    simp only [Context.expand, hlookup, SymbolTable.expand, SymbolTable.structType?, hfind,
      Context.symbolAt, SymbolTable.symbolAt_eq hs, Option.map_some, Option.getD_some]

end Declarations

end Laye
