import Laye.Proofs.Typing.Uses

/-!
# A name stands for one struct

A struct type carries the types of the fields, so two types of one name could differ in them. They
never do: `Ty.Canonical` says that every struct in a type is the one that its name stands for, and
the types of declarations are of this kind (`Declarations.canonical_symbols`), whatever structs a
name is met in while they are resolved (`Declarations.named_agree`). So are the types of well-typed
expressions (`Typed.Expr.WellTyped.canonical`), if those of their casts are.
-/

namespace Laye

open Typing (bind_eq_ok unless_eq_ok)

/-! ### Types -/

/-- Every struct in the type is the one that its name stands for. -/
inductive Ty.Canonical (structs : String → Option Ty) : Ty → Prop where
  | basic {ty : Ty} (hty : ty.isBasic = true) : Canonical structs ty
  | enum (name : String) (variants : List (String × Nat)) : Canonical structs (.enum name variants)
  | structRef (name : String) : Canonical structs (.structRef name)
  | array {element : Ty} (capacity : Nat) (access : Access) (helement : Canonical structs element) :
      Canonical structs (.array element capacity access)
  | pointer {element : Ty} (access : Access) (helement : Canonical structs element) :
      Canonical structs (.pointer element access)
  | buffer {element : Ty} (access : Access) (helement : Canonical structs element) :
      Canonical structs (.buffer element access)
  | slice {element : Ty} (access : Access) (helement : Canonical structs element) :
      Canonical structs (.slice element access)
  | function {signature : Signature} (hreturn : Canonical structs signature.returnType)
      (hparams : ∀ param ∈ signature.params, Canonical structs param.2) :
      Canonical structs (.function signature)
  | struct {name : String} {typeParams : List TypeParam} {fields : List (String × Ty)}
      (hname : structs name = some (.struct name typeParams fields))
      (hfields : ∀ field ∈ fields, Canonical structs field.2) :
      Canonical structs (.struct name typeParams fields)

namespace Ty

variable {structs : String → Option Ty} {ty : Ty}

theorem Canonical.indirect (h : ty.Canonical structs) : ty.indirect.Canonical structs := by
  cases h with
  | struct => exact .structRef _
  | basic hty =>
    cases ty with
    | struct => cases hty
    | _ => exact .basic hty
  | enum name variants => exact .enum name variants
  | structRef name => exact .structRef name
  | array _ _ helement => exact .array _ _ helement
  | pointer _ helement => exact .pointer _ helement
  | buffer _ helement => exact .buffer _ helement
  | slice _ helement => exact .slice _ helement
  | function hreturn hparams => exact .function hreturn hparams

theorem closed_canonical (structs : String → Option Ty) : Ty.Closed (Ty.Canonical structs) where
  basic _ h := .basic h
  enum := .enum
  pointer _ access h := .pointer access h.indirect
  buffer _ access h := .buffer access h.indirect
  slice _ access h := .slice access h.indirect
  array _ capacity access h := .array capacity access h

theorem Canonical.element_of_pointer {element : Ty} {access : Access}
    (h : (Ty.pointer element access).Canonical structs) : element.Canonical structs := by
  cases h with
  | basic hty => cases hty
  | pointer _ helement => exact helement

/-- A canonical struct is the declared one, and its fields are canonical. -/
theorem Canonical.of_struct {name : String} {typeParams : List TypeParam}
    {fields : List (String × Ty)} (h : (Ty.struct name typeParams fields).Canonical structs) :
    structs name = some (.struct name typeParams fields) ∧
      ∀ field ∈ fields, field.2.Canonical structs := by
  cases h with
  | basic hty => cases hty
  | struct hname hfields => exact ⟨hname, hfields⟩

theorem Canonical.of_function {signature : Signature}
    (h : (Ty.function signature).Canonical structs) :
    signature.returnType.Canonical structs ∧
      ∀ param ∈ signature.params, param.2.Canonical structs := by
  cases h with
  | basic hty => cases hty
  | function hreturn hparams => exact ⟨hreturn, hparams⟩

end Ty

/-! ### Names mean the same everywhere -/

/-- Two ways to read names agree where both give a type. -/
structure TypeNames.Agree (names names' : TypeNames) : Prop where
  struct : names.isStruct = names'.isStruct
  type : ∀ ident ty ty', names.resolve ident = .ok ty → names'.resolve ident = .ok ty' → ty = ty'

namespace TypeExpr

variable {names names' : TypeNames} {ty ty' : Ty}

theorem behind_agree (hnames : names.Agree names') {element : TypeExpr}
    (helement : ∀ ty ty', element.resolve names = .ok ty → element.resolve names' = .ok ty' →
      ty = ty')
    (h : resolve.behind names element (fun _ => element.resolve names) = .ok ty)
    (h' : resolve.behind names' element (fun _ => element.resolve names') = .ok ty') :
    ty = ty' := by
  have hsame : namedStruct? names element = namedStruct? names' element := by
    cases element <;> simp [namedStruct?, hnames.struct]
  unfold resolve.behind at h h'
  rw [hsame] at h
  cases hstruct : namedStruct? names' element with
  | some _ =>
    rw [hstruct] at h h'
    cases h
    cases h'
    rfl
  | none =>
    rw [hstruct] at h h'
    exact helement ty ty' h h'

/-- A written type means the same for names that agree. -/
theorem resolve_agree (hnames : names.Agree names') (t : TypeExpr) (h : t.resolve names = .ok ty)
    (h' : t.resolve names' = .ok ty') : ty = ty' := by
  induction t generalizing ty ty' with
  | builtin _ _ => exact Except.ok.inj (h.symm.trans h')
  | named ident => exact hnames.type ident ty ty' h h'
  | pointer _ _ _ ih =>
    obtain ⟨_, hinner, h⟩ := bind_eq_ok.mp h
    obtain ⟨_, hinner', h'⟩ := bind_eq_ok.mp h'
    cases h
    cases h'
    rw [behind_agree hnames (fun _ _ => ih) hinner hinner']
  | buffer element access span ih | slice _ _ _ ih =>
    obtain ⟨_, hinner, h⟩ := bind_eq_ok.mp h
    obtain ⟨_, hinner', h'⟩ := bind_eq_ok.mp h'
    obtain ⟨_, hvoid, h⟩ := bind_eq_ok.mp h
    obtain ⟨_, hvoid', h'⟩ := bind_eq_ok.mp h'
    cases h
    cases h'
    rw [nonVoid_eq_ok hvoid, nonVoid_eq_ok hvoid',
      behind_agree hnames (fun _ _ => ih) hinner hinner']
  | array _ _ _ _ ih =>
    obtain ⟨_, hinner, h⟩ := bind_eq_ok.mp h
    obtain ⟨_, hinner', h'⟩ := bind_eq_ok.mp h'
    obtain ⟨_, hvoid, h⟩ := bind_eq_ok.mp h
    obtain ⟨_, hvoid', h'⟩ := bind_eq_ok.mp h'
    split at h
    · cases h
    · rename_i hcapacity
      rw [if_neg hcapacity] at h'
      cases h
      cases h'
      rw [nonVoid_eq_ok hvoid, nonVoid_eq_ok hvoid', ih hinner hinner']

end TypeExpr

namespace Declarations

variable {decls : List TopLevel} {names names' : TypeNames}

theorem fieldTypes_agree (hnames : names.Agree names') {struct : String} {fields : List Param}
    {done result result' : List (String × Ty)}
    (h : fieldTypes names struct fields done = .ok result)
    (h' : fieldTypes names' struct fields done = .ok result') : result = result' := by
  induction fields generalizing done with
  | nil => exact Except.ok.inj (h.symm.trans h')
  | cons _ _ ih =>
    obtain ⟨_, hty, h⟩ := bind_eq_ok.mp (unless_eq_ok h)
    obtain ⟨_, hty', h'⟩ := bind_eq_ok.mp (unless_eq_ok h')
    cases TypeExpr.resolve_agree hnames _ hty hty'
    exact ih (unless_eq_ok h) (unless_eq_ok h')

theorem structType_agree (hnames : names.Agree names') {decl : StructDecl} {ty ty' : Ty}
    (h : structType names decl = .ok ty) (h' : structType names' decl = .ok ty') : ty = ty' := by
  obtain ⟨_, hfields, h⟩ := bind_eq_ok.mp h
  obtain ⟨_, hfields', h'⟩ := bind_eq_ok.mp h'
  cases h
  cases h'
  rw [fieldTypes_agree hnames hfields hfields']

theorem named_agree {free free' : Nat} {path path' : List String} {ident : Ident} {ty ty' : Ty}
    (h : named decls free path ident = .ok ty) (h' : named decls free' path' ident = .ok ty') :
    ty = ty' := by
  induction free generalizing free' path path' ident ty ty' with
  | zero =>
    unfold named at h h'
    cases hfind : find? decls ident.name with
    | none => simp [hfind] at h
    | some decl =>
      cases decl with
      | function _ => simp [hfind] at h
      | enum _ =>
        simp only [hfind] at h h'
        exact Except.ok.inj (h.symm.trans h')
      | struct _ =>
        simp only [hfind] at h
        split at h <;> cases h
  | succ free ih =>
    unfold named at h h'
    cases hfind : find? decls ident.name with
    | none => simp [hfind] at h
    | some decl =>
      cases decl with
      | function _ => simp [hfind] at h
      | enum _ =>
        simp only [hfind] at h h'
        exact Except.ok.inj (h.symm.trans h')
      | struct _ =>
        simp only [hfind] at h h'
        split at h
        · cases h
        · split at h'
          · cases h'
          · cases free' with
            | zero => cases h'
            | succ free' =>
              have hnames : TypeNames.Agree
                  ⟨isStruct decls, named decls free (ident.name :: path)⟩
                  ⟨isStruct decls, named decls free' (ident.name :: path')⟩ :=
                ⟨rfl, fun _ _ _ => ih⟩
              exact structType_agree hnames h h'

/-! ### Declarations -/

variable {symbols : SymbolTable}

theorem structType?_of_find? (hnodup : (decls.map (·.name.name)).Nodup)
    (hpopulate : populate decls = .ok symbols) {decl : StructDecl}
    (hdecl : find? decls decl.name.name = some (.struct decl)) :
    ∃ ty, symbols.structType? decl.name.name = some ty ∧
      structType (namesInside decls [decl.name.name]) decl = .ok ty := by
  obtain ⟨i, hi, hget⟩ := List.getElem_of_mem (List.mem_of_find?_eq_some hdecl)
  obtain ⟨symbol, hs, his⟩ := symbol_of_decl hpopulate (hget ▸ List.getElem?_eq_getElem hi)
  have hstruct := SymbolTable.isStruct_of_mem (List.mem_of_getElem? hs) his.kind_eq
  rw [his.name_eq] at hstruct
  obtain ⟨ty, hty⟩ := Option.isSome_iff_exists.mp hstruct
  refine ⟨ty, hty, ?_⟩
  obtain ⟨found, hfind, rfl⟩ := Option.map_eq_some_iff.mp hty
  have hfound := List.find?_some hfind
  simp only [Bool.decide_and, Bool.and_eq_true, decide_eq_true_eq] at hfound
  obtain ⟨j, hj, hget'⟩ := List.getElem_of_mem (List.mem_of_find?_eq_some hfind)
  obtain ⟨_, hdecl', his'⟩ := decl_of_symbol hpopulate (hget' ▸ List.getElem?_eq_getElem hj)
  -- The symbol that is found belongs to the declaration, for no other one has the name.
  have hsame := find?_of_nodup hnodup (List.mem_of_getElem? hdecl')
  rw [← his'.name_eq, hfound.2] at hsame
  cases hdecl.symm.trans hsame
  exact his'.type

theorem holdsOfStructs_canonical (hnodup : (decls.map (·.name.name)).Nodup)
    (hpopulate : populate decls = .ok symbols) :
    HoldsOfStructs decls (Ty.Canonical symbols.structType?) where
  reference name _ := .structRef name
  struct free path decl ty hdecl h hfields := by
    obtain ⟨ty', hty', h'⟩ := structType?_of_find? hnodup hpopulate hdecl
    have hnames : TypeNames.Agree ⟨isStruct decls, named decls free path⟩
        (namesInside decls [decl.name.name]) := ⟨rfl, fun _ _ _ => named_agree⟩
    have hsame : ty = ty' := structType_agree hnames h h'
    obtain ⟨fields, -, h⟩ := bind_eq_ok.mp h
    cases h
    exact .struct (hsame ▸ hty') (hfields fields rfl)

end Declarations

/-- Every struct in the type of a symbol is the one that its name stands for. -/
def SymbolTable.Canonical (symbols : SymbolTable) : Prop :=
  ∀ symbol ∈ symbols, symbol.ty.Canonical symbols.structType?

variable {symbols : SymbolTable} {known : List SymbolId}

theorem Declarations.canonical_symbols {decls : List TopLevel} {scopes : ScopeStack}
    (hdeclare : declare decls = .ok scopes) (hpopulate : populate decls = .ok symbols) :
    symbols.Canonical := by
  obtain ⟨-, hnodup, -⟩ := declare_eq_ok hdeclare
  intro symbol hmem
  obtain ⟨i, hi, rfl⟩ := List.getElem_of_mem hmem
  obtain ⟨_, hd, his⟩ := decl_of_symbol hpopulate (List.getElem?_eq_getElem hi)
  exact typeOf_gives ((holdsOfStructs_canonical hnodup hpopulate).passes (Ty.closed_canonical _))
    (fun _ _ => .function) (find?_of_nodup hnodup (List.mem_of_getElem? hd)) his.type

/-! ### Expressions -/

namespace SymbolTable.Canonical

variable {symbols : SymbolTable} {ty element : Ty}

theorem expand (h : symbols.Canonical) (hty : ty.Canonical symbols.structType?) :
    (symbols.expand ty).Canonical symbols.structType? :=
  SymbolTable.expand_of_forall h hty

theorem elementType? (h : symbols.Canonical) (hty : ty.Canonical symbols.structType?)
    (helement : symbols.elementType? ty = some element) :
    element.Canonical symbols.structType? := by
  cases ty with
  | array _ _ _ | buffer _ _ | slice _ _ =>
    cases helement
    cases hty with
    | basic hbasic => cases hbasic
    | _ => exact h.expand (by assumption)
  | string =>
    cases helement
    exact .basic rfl
  | _ => cases helement

theorem signature (h : symbols.Canonical) {symbol : Symbol} {signature : Signature}
    (hmem : symbol ∈ symbols) (hsignature : symbol.signature? = some signature) :
    signature.returnType.Canonical symbols.structType? ∧
      ∀ param ∈ signature.params, param.2.Canonical symbols.structType? := by
  have hty := h symbol hmem
  unfold Symbol.signature? at hsignature
  split at hsignature
  · rename_i heq
    rw [heq] at hty
    cases hsignature
    exact hty.of_function
  · cases hsignature

end SymbolTable.Canonical

/-- The expression takes the values of variables in `known`, and besides them of functions. It casts
only to types in which every struct is the one that its name stands for. -/
def Typed.Expr.Reads (symbols : SymbolTable) (known : List SymbolId) (e : Typed.Expr) : Prop :=
  e.Uses (fun id => id ∈ known ∨ (symbols.symbolAt id).kind = .function)
    (Ty.Canonical symbols.structType?)

theorem Typed.Expr.Reads.mono {symbols' : SymbolTable} {e : Typed.Expr} (h : e.Reads symbols known)
    (hsymbols : symbols.Extends symbols') : e.Reads symbols' known := by
  refine Typed.Expr.Uses.imp (fun id hid => ?_) (fun ty hty => ?_) e h
  · rcases hid with hmem | hkind
    · exact .inl hmem
    · refine .inr ?_
      cases hsymbol : symbols[id]? with
      | none =>
        rw [SymbolTable.symbolAt, List.getD_eq_getElem?_getD, hsymbol] at hkind
        cases hkind
      | some _ =>
        rw [SymbolTable.symbolAt_eq hsymbol] at hkind
        rw [SymbolTable.symbolAt_eq (hsymbols.getElem? hsymbol)]
        exact hkind
  · rwa [funext hsymbols.structType?_eq]

/-- In the type of a well-typed expression, every struct is the one that its name stands for. -/
theorem Typed.Expr.WellTyped.canonical {e : Typed.Expr} (hsymbols : symbols.Canonical)
    (h : e.WellTyped symbols) (huses : e.Reads symbols known) :
    e.ty.Canonical symbols.structType? := by
  induction h with
  | @integer ty _ _ _ hty =>
    cases ty with
    | int _ | sizedInt _ _ => exact .basic rfl
    | _ => cases hty
  | variant => exact .enum _ _
  | float _ _ hty => rcases hty with rfl | ⟨_, rfl⟩ <;> exact .basic rfl
  | bool | materialize => exact .basic rfl
  | string _ _ hty =>
    rcases hty with rfl | rfl
    · exact .basic rfl
    · exact .buffer _ (.basic rfl)
  | load _ hsymbol _ => exact hsymbols _ (List.mem_of_getElem? hsymbol)
  | cast _ _ _ _ => exact huses.1
  | invoke _ hsymbol hsignature _ _ _ =>
    exact (hsymbols.signature (List.mem_of_getElem? hsymbol) hsignature).1
  | unary _ _ _ ih => exact ih huses
  | binary _ _ _ _ _ ihleft _ =>
    simp only [Typed.Expr.ty, BinaryOp.resultType]
    split
    · exact .basic rfl
    · exact ihleft huses.1
  | addressOf _ _ _ ih => exact .pointer _ (ih huses).indirect
  | dereference _ _ hpointer ih =>
    have hinner := ih huses
    rw [hpointer] at hinner
    exact hsymbols.expand hinner.element_of_pointer
  | index _ _ _ helement _ ih _ => exact hsymbols.elementType? (ih huses.1) helement
  | field _ _ hstruct hfield _ ih =>
    have htarget := ih huses
    rw [hstruct] at htarget
    exact htarget.of_struct.2 _ (List.mem_of_getElem? hfield)

end Laye
