import Laye.Proofs.Typing.Canonical
import Laye.Syntax.Plain
import Mathlib.Data.Finset.Card
import Mathlib.Data.List.Perm.Subperm

/-!
# Structs have a finite size

A struct embeds another one if it has a field of that struct, or of arrays of it
(`Declarations.Embeds`). Resolving the fields of a struct expands the structs that they name, and a
struct that is already open is refused. A struct right behind a pointer, buffer or slice is taken by
name and is not expanded. All others are, also those in an array behind a pointer
(`TypeExpr.Expands`), and so is every struct that is embedded (`Declarations.Embeds.expands`).

Declarations are resolved with a bound on how many structs can be opened. The bound never shows:
where names are resolved, they mean what the recursion without a bound says
(`Declarations.resolve_namesInside`), and that recursion goes down a well-founded order
(`Declarations.opens_wellFounded`), for a struct is opened only once on a path. If all declarations
have a type, the size of these types ranks the structs (`Declarations.rank_lt_of_expands`), so no
struct contains itself.
-/

namespace Laye

open Typing (bind_eq_ok unless_eq_ok)

/-- The written type is a name, or an array of such types: its values hold those of the name. -/
def TypeExpr.Embeds (name : String) : TypeExpr → Prop
  | .named ident => ident.name = name
  | .array element _ _ _ => element.Embeds name
  | .builtin _ _ | .pointer _ _ _ | .buffer _ _ _ | .slice _ _ _ => False

namespace TypeExpr

/-- Whether the written type is a mere name. -/
def isName : TypeExpr → Bool
  | .named _ => true
  | _ => false

/-- The written type has the name as a whole or as the element of an array, perhaps behind pointers,
buffers and slices. It is not enough that it stands right behind one of these. -/
def Expands (name : String) : TypeExpr → Prop
  | .named ident => ident.name = name
  | .array element _ _ _ => element.Expands name
  | .pointer element _ _ | .buffer element _ _ | .slice element _ _ =>
    element.isName = false ∧ element.Expands name
  | .builtin _ _ => False

variable {names : TypeNames} {name : String} {t element : TypeExpr}

theorem Embeds.expands (h : t.Embeds name) : t.Expands name := by
  induction t with
  | named _ => exact h
  | array _ _ _ _ ih => exact ih h
  | _ => exact h.elim

theorem indirect_of_expands {ty : Ty} (hname : t.isName = false) (h : t.Expands name)
    (hty : t.resolve names = .ok ty) : ty.indirect = ty := by
  cases t with
  | named _ => cases hname
  | builtin _ _ => exact h.elim
  | pointer _ _ _ =>
    obtain ⟨_, -, hty⟩ := bind_eq_ok.mp hty
    cases hty
    rfl
  | buffer _ _ _ | slice _ _ _ =>
    obtain ⟨_, -, hty⟩ := bind_eq_ok.mp hty
    obtain ⟨_, -, hty⟩ := bind_eq_ok.mp hty
    cases hty
    rfl
  | array _ _ _ _ =>
    obtain ⟨_, -, hty⟩ := bind_eq_ok.mp hty
    obtain ⟨_, -, hty⟩ := bind_eq_ok.mp hty
    split at hty
    · cases hty
    · cases hty
      rfl

theorem behind_eq_ok {ty : Ty} (hname : element.isName = false)
    (h : resolve.behind names element (fun _ => element.resolve names) = .ok ty) :
    element.resolve names = .ok ty := by
  cases element with
  | named _ => cases hname
  | _ => exact h

theorem Expands.resolve {ty : Ty} (h : t.Expands name) (hty : t.resolve names = .ok ty) :
    ∃ ident inner, ident.name = name ∧ names.resolve ident = .ok inner ∧
      sizeOf inner ≤ sizeOf ty := by
  induction t generalizing ty with
  | builtin _ _ => exact h.elim
  | named ident => exact ⟨ident, ty, h, hty, Nat.le_refl _⟩
  | pointer _ _ _ ih =>
    obtain ⟨_, helement, hty⟩ := bind_eq_ok.mp hty
    have helement := behind_eq_ok h.1 helement
    obtain ⟨ident, inner, hname, hinner, _⟩ := ih h.2 helement
    cases hty
    refine ⟨ident, inner, hname, hinner, ?_⟩
    simp only [Ty.pointerTo, indirect_of_expands h.1 h.2 helement, Ty.pointer.sizeOf_spec]
    omega
  | buffer _ _ _ ih | slice _ _ _ ih =>
    obtain ⟨_, helement, hty⟩ := bind_eq_ok.mp hty
    have helement := behind_eq_ok h.1 helement
    obtain ⟨ident, inner, hname, hinner, _⟩ := ih h.2 helement
    obtain ⟨_, hvoid, hty⟩ := bind_eq_ok.mp hty
    cases nonVoid_eq_ok hvoid
    cases hty
    refine ⟨ident, inner, hname, hinner, ?_⟩
    simp only [Ty.bufferOf, Ty.sliceOf, indirect_of_expands h.1 h.2 helement,
      Ty.buffer.sizeOf_spec, Ty.slice.sizeOf_spec]
    omega
  | array _ _ _ _ ih =>
    obtain ⟨_, helement, hty⟩ := bind_eq_ok.mp hty
    obtain ⟨_, hvoid, hty⟩ := bind_eq_ok.mp hty
    cases nonVoid_eq_ok hvoid
    obtain ⟨ident, inner, hname, hinner, hsize⟩ := ih h helement
    refine ⟨ident, inner, hname, hinner, Nat.le_trans hsize ?_⟩
    split at hty
    · cases hty
    · cases hty
      simp only [Ty.array.sizeOf_spec]
      omega

end TypeExpr

namespace Declarations

variable {decls : List TopLevel}

/-- A struct has a field that holds another struct by value, alone or in arrays. -/
inductive Embeds (decls : List TopLevel) : String → String → Prop where
  | field {outer inner : StructDecl} {field : Param} (houter : .struct outer ∈ decls)
      (hinner : .struct inner ∈ decls) (hfield : field ∈ outer.fields)
      (hty : field.ty.Embeds inner.name.name) : Embeds decls outer.name.name inner.name.name

/-- A struct has a field whose type expands another struct. -/
inductive Expands (decls : List TopLevel) : String → String → Prop where
  | field {outer inner : StructDecl} {field : Param} (houter : .struct outer ∈ decls)
      (hinner : .struct inner ∈ decls) (hfield : field ∈ outer.fields)
      (hty : field.ty.Expands inner.name.name) : Expands decls outer.name.name inner.name.name

theorem Embeds.expands {outer inner : String} (h : Embeds decls outer inner) :
    Expands decls outer inner := by
  obtain ⟨houter, hinner, hfield, hty⟩ := h
  exact .field houter hinner hfield hty.expands

/-! ### The recursion without a bound -/

/-- What a name stands for inside the structs of `path`, by what names mean inside one struct
more. -/
def resolveInside (decls : List TopLevel) (inside : List String → TypeNames) (path : List String)
    (ident : Ident) : Except Fault Ty :=
  match find? decls ident.name with
  | none => .error ⟨ident.span, .unknownType ident.name⟩
  | some (.function _) => .error ⟨ident.span, .functionAsType ident.name⟩
  | some (.enum decl) => enumType decl
  | some (.struct decl) =>
    if ident.name ∈ path then .error ⟨decl.name.span, .recursiveType ident.name⟩
    else structType (inside (ident.name :: path)) decl

/-- Inside the structs of a path, a struct is opened that is not among them. -/
inductive Opens (decls : List TopLevel) : List String → List String → Prop where
  | struct {path : List String} {name : String} (hstruct : isStruct decls name = true)
      (hfresh : name ∉ path) : Opens decls path (name :: path)

theorem mem_names_of_isStruct {name : String} (h : isStruct decls name = true) :
    name ∈ decls.map (·.name.name) := by
  unfold isStruct at h
  split at h
  · rename_i _ hfind
    exact List.mem_map.mpr
      ⟨_, List.mem_of_find?_eq_some hfind, by simpa using List.find?_some hfind⟩
  · cases h

theorem opens_wellFounded (decls : List TopLevel) :
    WellFounded fun path' path => Opens decls path path' := by
  refine Subrelation.wf ?_ (measure fun path : List String =>
    ((decls.map (·.name.name)).toFinset \ path.toFinset).card).wf
  rintro _ path ⟨hstruct, hfresh⟩
  rename_i name
  refine Finset.card_lt_card (Finset.ssubset_iff_of_subset ?_ |>.mpr ⟨name, ?_, ?_⟩)
  · exact Finset.sdiff_subset_sdiff (Finset.Subset.refl _) (by simp)
  · simpa using ⟨List.mem_map.mp (mem_names_of_isStruct hstruct), hfresh⟩
  · simp

variable {path : List String} {outer inner : String}

theorem nodup_of_opens (h : Relation.ReflTransGen (Opens decls) [] path) :
    path.Nodup ∧ ∀ name ∈ path, isStruct decls name = true := by
  induction h with
  | refl => exact ⟨List.nodup_nil, by simp⟩
  | tail _ hlast ih =>
    obtain ⟨hstruct, hfresh⟩ := hlast
    refine ⟨List.nodup_cons.mpr ⟨hfresh, ih.1⟩, fun name hname => ?_⟩
    rcases List.mem_cons.mp hname with rfl | hname
    · exact hstruct
    · exact ih.2 name hname

theorem length_le_of_opens (h : Relation.ReflTransGen (Opens decls) [] path) :
    path.length ≤ decls.length := by
  obtain ⟨hnodup, hstructs⟩ := nodup_of_opens h
  have hsubset : path ⊆ decls.map (·.name.name) :=
    fun name hname => mem_names_of_isStruct (hstructs name hname)
  simpa using (hnodup.subperm hsubset).length_le

/-- On every path that is reached, names mean what the recursion without a bound says. -/
theorem resolve_namesInside (hpath : Relation.ReflTransGen (Opens decls) [] path) (ident : Ident) :
    (namesInside decls path).resolve ident =
      resolveInside decls (namesInside decls) path ident := by
  unfold namesInside resolveInside named
  cases hfind : find? decls ident.name with
  | none => rfl
  | some decl =>
    cases decl with
    | function _ | enum _ => rfl
    | struct _ =>
      by_cases hmem : ident.name ∈ path
      · simp [hmem]
      · -- One struct more can be opened, so the bound is not reached yet.
        have hopens := hpath.tail (.struct (by simp [isStruct, hfind]) hmem)
        have hlength := length_le_of_opens hopens
        rw [List.length_cons] at hlength
        have hfree : decls.length - path.length =
            decls.length - (ident.name :: path).length + 1 := by
          rw [List.length_cons]
          omega
        simp only [if_neg hmem, hfree]

/-! ### Ranks -/

theorem mem_fieldTypes {names : TypeNames} {struct : String} {fields : List Param}
    {done result : List (String × Ty)} (h : fieldTypes names struct fields done = .ok result) :
    done ⊆ result ∧ ∀ field ∈ fields, ∃ ty,
      field.ty.resolve names = .ok ty ∧ (field.name.name, ty) ∈ result := by
  induction fields generalizing done with
  | nil =>
    cases h
    exact ⟨List.Subset.refl _, by simp⟩
  | cons _ _ ih =>
    obtain ⟨ty, hty, h⟩ := bind_eq_ok.mp (unless_eq_ok h)
    obtain ⟨hdone, hrest⟩ := ih (unless_eq_ok h)
    refine ⟨fun entry hentry => hdone (List.mem_append_left _ hentry), fun other hother => ?_⟩
    rcases List.mem_cons.mp hother with rfl | hother
    · exact ⟨ty, hty, hdone (List.mem_append_right _ (List.mem_singleton.mpr rfl))⟩
    · exact hrest other hother

/-- The rank of a struct: the size of its type. -/
noncomputable def rank (symbols : SymbolTable) (name : String) : Nat :=
  match symbols.structType? name with
  | some ty => sizeOf ty
  | none => 0

variable {symbols : SymbolTable}

section

variable (hnodup : (decls.map (·.name.name)).Nodup) (hpopulate : populate decls = .ok symbols)
include hnodup hpopulate

theorem structType?_of_resolve {ident : Ident} {ty : Ty}
    (hstruct : isStruct decls ident.name = true)
    (h : (namesInside decls path).resolve ident = .ok ty) :
    symbols.structType? ident.name = some ty := by
  have hcanonical : ty.Canonical symbols.structType? :=
    named_gives
      ((holdsOfStructs_canonical hnodup hpopulate).passes (Ty.closed_canonical _)) _ path h
  unfold isStruct at hstruct
  split at hstruct
  · rename_i _ hfind
    simp only [namesInside] at h
    unfold named at h
    simp only [hfind] at h
    split at h
    · cases h
    · split at h
      · cases h
      · obtain ⟨_, -, h⟩ := bind_eq_ok.mp h
        cases h
        rw [← (find?_struct hfind).1]
        exact hcanonical.of_struct.1
  · cases hstruct

theorem rank_lt_of_expands (h : Expands decls outer inner) :
    rank symbols inner < rank symbols outer := by
  obtain ⟨houter, hinner, hfield, hexpands⟩ := h
  obtain ⟨_, hsymbol, hty⟩ := structType?_of_find? hnodup hpopulate (find?_of_nodup hnodup houter)
  obtain ⟨_, hfields, hty⟩ := bind_eq_ok.mp hty
  cases hty
  obtain ⟨_, hfieldType, hmem⟩ := (mem_fieldTypes hfields).2 _ hfield
  obtain ⟨ident, _, hname, hinnerType, _⟩ := hexpands.resolve hfieldType
  have hisStruct : isStruct decls ident.name = true := by
    rw [hname]
    exact (find?_struct (find?_of_nodup hnodup hinner)).2
  have hsymbol' := structType?_of_resolve hnodup hpopulate hisStruct hinnerType
  rw [hname] at hsymbol'
  have hlt := List.sizeOf_lt_of_mem hmem
  simp only [Prod.mk.sizeOf_spec] at hlt
  simp only [rank, hsymbol, hsymbol', Ty.struct.sizeOf_spec]
  omega

theorem rank_lt_of_transGen (h : Relation.TransGen (Expands decls) outer inner) :
    rank symbols inner < rank symbols outer := by
  induction h with
  | single h => exact rank_lt_of_expands hnodup hpopulate h
  | tail _ hlast ih => exact Nat.lt_trans (rank_lt_of_expands hnodup hpopulate hlast) ih

end

/-- Resolving declarations ends, for a reason that does not depend on their bound: structs cannot be
opened without end, and on every path of open structs names mean what the recursion without a bound
says. If all declarations have types, no struct contains itself by value, and there is a rank that
puts every struct above those it embeds. -/
theorem populate_ends_with_ranks (hnodup : (decls.map (·.name.name)).Nodup) :
    (WellFounded fun path' path => Opens decls path path') ∧
      (∀ path, Relation.ReflTransGen (Opens decls) [] path → ∀ ident,
        (namesInside decls path).resolve ident =
          resolveInside decls (namesInside decls) path ident) ∧
      ∀ symbols, populate decls = .ok symbols →
        (∀ name, ¬ Relation.TransGen (Embeds decls) name name) ∧
          ∃ rank : String → Nat, ∀ outer inner, Embeds decls outer inner →
            rank inner < rank outer :=
  ⟨opens_wellFounded decls, fun _ hpath => resolve_namesInside hpath, fun symbols hpopulate =>
    ⟨fun _ hcycle => Nat.lt_irrefl _
        (rank_lt_of_transGen hnodup hpopulate (.mono (fun _ _ => Embeds.expands) _ _ hcycle)),
      rank symbols, fun _ _ h => rank_lt_of_expands hnodup hpopulate h.expands⟩⟩

/-- A list whose nodes embed points and point to the next node:
`struct Node { Point[2] ends; Node* next; }` and `struct Point { int x; }`. -/
def nodes : List TopLevel :=
  [Plain.struct "Node" [Plain.param (Plain.array (Plain.named "Point") 2) "ends",
    Plain.param (Plain.pointer (Plain.named "Node")) "next"],
   Plain.struct "Point" [Plain.param (Plain.keyword "int") "x"]]

theorem embeds_nodes : Embeds nodes "Node" "Point" :=
  .field (List.mem_cons_self) (List.mem_cons_of_mem _ List.mem_cons_self) List.mem_cons_self rfl

theorem populate_ends_with_ranks_nodes :
    (nodes.map (·.name.name)).Nodup ∧ Embeds nodes "Node" "Point" ∧
      ∃ symbols, populate nodes = .ok symbols ∧
        ∃ rank : String → Nat, ∀ outer inner, Embeds nodes outer inner →
          rank inner < rank outer := by
  have hnodup : (nodes.map (·.name.name)).Nodup := by decide +kernel
  have hok : (populate nodes).isOk = true := by decide +kernel
  cases hpopulate : populate nodes with
  | error fault => simp [hpopulate, Except.isOk, Except.toBool] at hok
  | ok symbols =>
    exact ⟨hnodup, embeds_nodes, symbols, rfl,
      ((populate_ends_with_ranks hnodup).2.2 symbols hpopulate).2⟩

end Declarations

end Laye
