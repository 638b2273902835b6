import Laye.Proofs.Typing.Containment

/-!
# Which structs are refused as recursive

A struct is refused as recursive only if its fields expand it again, over any number of structs
(`Declarations.expands_of_blames`), and declarations with such a cycle never have types
(`Declarations.rank_lt_of_transGen`). Every struct that another one embeds is expanded by it. The
other way round this takes that no array stands behind a pointer, buffer or slice
(`TypeExpr.Expands.embeds`).
-/

namespace Laye

open Typing (bind_eq_ok)

/-! ### Refusals of recursive structs -/

section Blames

variable {α β : Type} {name : String}

/-- The result is the refusal of a struct as recursive. -/
def Blames (name : String) (result : Except Fault α) : Prop :=
  ∃ span, result = .error ⟨span, .recursiveType name⟩

@[simp] theorem not_blames_ok (a : α) : ¬ Blames name (.ok a : Except Fault α) := by
  rintro ⟨span, ⟨⟩⟩

@[simp] theorem blames_error {span : Span} {problem : Problem} :
    Blames name (.error ⟨span, problem⟩ : Except Fault α) ↔ problem = .recursiveType name := by
  constructor
  · rintro ⟨span, ⟨⟩⟩
    rfl
  · rintro rfl
    exact ⟨span, rfl⟩

/-- Two steps blame a name if the first does, or the second with its result. -/
@[simp] theorem blames_bind {x : Except Fault α} {f : α → Except Fault β} :
    Blames name (x >>= f) ↔ Blames name x ∨ ∃ a, x = .ok a ∧ Blames name (f a) := by
  cases x with
  | error fault =>
    obtain ⟨_, _⟩ := fault
    simp only [blames_error, reduceCtorEq, false_and, exists_false, or_false]
    exact blames_error
  | ok a =>
    simp only [not_blames_ok, Except.ok.injEq, false_or, exists_eq_left']
    exact .rfl

theorem blames_unless {c : Prop} [Decidable c] {span : Span} {problem : Problem}
    {x : Except Fault α} (h : Blames name (if c then (do .error ⟨span, problem⟩; x) else x))
    (hproblem : problem ≠ .recursiveType name) : Blames name x := by
  split at h
  · simp [hproblem] at h
  · exact h

end Blames

namespace TypeExpr

variable {name : String} {t element : TypeExpr}

/-- Whether an array stands anywhere in the written type. -/
def hasArray : TypeExpr → Bool
  | .array _ _ _ _ => true
  | .pointer element _ _ | .buffer element _ _ | .slice element _ _ => element.hasArray
  | .named _ | .builtin _ _ => false

/-- Whether an array stands behind a pointer, buffer or slice. -/
def hidesArray : TypeExpr → Bool
  | .array element _ _ _ => element.hidesArray
  | .pointer element _ _ | .buffer element _ _ | .slice element _ _ => element.hasArray
  | .named _ | .builtin _ _ => false

theorem hasArray_of_expands (hname : t.isName = false) (h : t.Expands name) :
    t.hasArray = true := by
  induction t with
  | named _ => cases hname
  | array _ _ _ _ _ => rfl
  | pointer element access span ih | buffer element access span ih
  | slice _ _ _ ih => exact ih h.1 h.2
  | builtin _ _ => exact h.elim

theorem Expands.embeds (h : t.Expands name) (harray : t.hidesArray = false) : t.Embeds name := by
  induction t with
  | named _ => exact h
  | array _ _ _ _ ih => exact ih h harray
  | pointer element access span | buffer element access span | slice _ _ _ =>
    exact absurd (hasArray_of_expands h.1 h.2) (by simpa [hidesArray] using harray)
  | builtin _ _ => exact h.elim

variable {names : TypeNames} {name : String}

theorem not_blames_builtin (keyword : String) (span : Span) :
    ¬ Blames name (resolveBuiltin keyword span) := by
  unfold resolveBuiltin
  split <;> simp

theorem not_blames_nonVoid (element : TypeExpr) (ty : Ty) : ¬ Blames name (nonVoid element ty) := by
  unfold nonVoid
  split <;> simp

section

variable (hnames : ∀ ident, Blames name (names.resolve ident) → names.isStruct ident.name = true)
include hnames

theorem blames_behind
    (h : Blames name (resolve.behind names element fun _ => element.resolve names)) :
    element.isName = false ∧ Blames name (element.resolve names) := by
  unfold resolve.behind at h
  cases hstruct : namedStruct? names element with
  | some _ => simp [hstruct] at h
  | none =>
    simp only [hstruct] at h
    refine ⟨?_, h⟩
    cases element with
    | named ident => simp [namedStruct?, hnames ident h] at hstruct
    | _ => rfl

/-- A written type that is refused as recursive expands a name that is. -/
theorem expands_of_blames (h : Blames name (t.resolve names)) :
    ∃ ident, t.Expands ident.name ∧ Blames name (names.resolve ident) := by
  induction t with
  | builtin keyword span => exact absurd h (not_blames_builtin keyword span)
  | named ident => exact ⟨ident, rfl, h⟩
  | pointer _ _ _ ih | buffer _ _ _ ih | slice _ _ _ ih =>
    simp only [resolve, blames_bind, not_blames_nonVoid, not_blames_ok, and_false, exists_false,
      or_false] at h
    obtain ⟨hname, h⟩ := blames_behind hnames h
    obtain ⟨ident, hexpands, hident⟩ := ih h
    exact ⟨ident, ⟨hname, hexpands⟩, hident⟩
  | array _ _ _ _ ih =>
    simp only [resolve, blames_bind, not_blames_nonVoid, false_or] at h
    rcases h with h | ⟨_, -, _, -, h⟩
    · exact ih h
    · split at h <;> simp at h

end

end TypeExpr

namespace Declarations

variable {decls : List TopLevel} {name : String}

/-! ### Where refusals come from -/

variable {names : TypeNames} {struct outer inner : String} {path : List String}

theorem blames_fieldTypes {fields : List Param} {done : List (String × Ty)}
    (h : Blames name (fieldTypes names struct fields done)) :
    ∃ field ∈ fields, Blames name (field.ty.resolve names) := by
  induction fields generalizing done with
  | nil => simp [fieldTypes] at h
  | cons field _ ih =>
    rcases blames_bind.mp (blames_unless h (by simp)) with h | ⟨_, -, h⟩
    · exact ⟨field, List.mem_cons_self, h⟩
    · obtain ⟨other, hother, h⟩ := ih (blames_unless h (by simp))
      exact ⟨other, List.mem_cons_of_mem _ hother, h⟩

theorem blames_structType {decl : StructDecl} (h : Blames name (structType names decl)) :
    ∃ field ∈ decl.fields, Blames name (field.ty.resolve names) := by
  simp only [structType, blames_bind, not_blames_ok, and_false, exists_false, or_false] at h
  exact blames_fieldTypes h

theorem not_blames_variantValues {enum : String} {variants : List EnumVariant} {next : Option Nat}
    {done : List (String × Nat)} : ¬ Blames name (variantValues enum variants next done) := by
  induction variants generalizing next done with
  | nil => simp [variantValues]
  | cons _ _ ih =>
    unfold variantValues
    split
    · simp
    · split
      · simp
      · exact ih

theorem not_blames_enumType (decl : EnumDecl) : ¬ Blames name (enumType decl) := by
  simp [enumType, not_blames_variantValues]

theorem not_blames_conventionOf {modifiers : List Modifier} {seen : Option CallingConvention} :
    ¬ Blames name (conventionOf modifiers seen) := by
  induction modifiers generalizing seen with
  | nil => simp [conventionOf]
  | cons modifier _ ih =>
    cases modifier with
    | foreign _ _ => exact ih
    | convention _ _ =>
      unfold conventionOf
      split
      · simp
      · exact ih

theorem blames_paramTypes {params : List Param} (h : Blames name (paramTypes names params)) :
    ∃ param ∈ params, Blames name (param.ty.resolve names) := by
  induction params with
  | nil => simp [paramTypes] at h
  | cons param _ ih =>
    rcases blames_bind.mp h with h | ⟨_, -, h⟩
    · exact ⟨param, List.mem_cons_self, h⟩
    · rcases blames_bind.mp (blames_unless h (by simp)) with h | ⟨_, -, h⟩
      · obtain ⟨other, hother, h⟩ := ih h
        exact ⟨other, List.mem_cons_of_mem _ hother, h⟩
      · simp at h

theorem blames_functionType {decl : FunctionDecl} (h : Blames name (functionType names decl)) :
    ∃ t : TypeExpr, Blames name (t.resolve names) := by
  rcases blames_bind.mp h with h | ⟨_, -, h⟩
  · exact absurd h not_blames_conventionOf
  · rcases blames_bind.mp (blames_unless h (by simp)) with h | ⟨_, -, h⟩
    · exact ⟨_, h⟩
    · rcases blames_bind.mp h with h | ⟨_, -, h⟩
      · obtain ⟨_, -, h⟩ := blames_paramTypes h
        exact ⟨_, h⟩
      · simp at h

theorem isStruct_of_blames {ident : Ident}
    (h : Blames name ((namesInside decls path).resolve ident)) :
    isStruct decls ident.name = true := by
  simp only [namesInside] at h
  unfold named at h
  split at h
  · simp at h
  · simp at h
  · exact absurd h (not_blames_enumType _)
  · rename_i _ hfind
    exact (find?_struct hfind).2

/-! ### Cycles -/

theorem Expands.embeds (h : Expands decls outer inner) (harrays : ∀ struct, .struct struct ∈ decls →
      ∀ field ∈ struct.fields, field.ty.hidesArray = false) : Embeds decls outer inner := by
  obtain ⟨houter, hinner, hfield, hty⟩ := h
  exact .field houter hinner hfield (hty.embeds (harrays _ houter _ hfield))

theorem exists_struct (h : isStruct decls struct = true) :
    ∃ decl : StructDecl, .struct decl ∈ decls ∧ decl.name.name = struct := by
  unfold isStruct at h
  split at h
  · rename_i decl hfind
    exact ⟨decl, List.mem_of_find?_eq_some hfind, (find?_struct hfind).1⟩
  · cases h

theorem expands_of_field {decl : StructDecl} (hdecl : .struct decl ∈ decls)
    (h : Blames name (structType (namesInside decls path) decl)) :
    ∃ ident, Expands decls decl.name.name ident.name ∧
      Blames name ((namesInside decls path).resolve ident) := by
  obtain ⟨field, hfield, h⟩ := blames_structType h
  obtain ⟨ident, hexpands, h⟩ :=
    TypeExpr.expands_of_blames (fun ident hident => isStruct_of_blames hident) h
  obtain ⟨_, hinner, hname⟩ := exists_struct (isStruct_of_blames h)
  rw [← hname] at hexpands
  have hfield := Expands.field hdecl hinner hfield hexpands
  rw [hname] at hfield
  exact ⟨ident, hfield, h⟩

/-- A name that is refused as recursive expands to itself. -/
theorem transGen_of_blames (hpath : Relation.ReflTransGen (Opens decls) [] path) {ident : Ident}
    (hreach : ∀ outer ∈ path, Relation.TransGen (Expands decls) outer ident.name)
    (h : Blames name ((namesInside decls path).resolve ident)) :
    Relation.TransGen (Expands decls) name name := by
  -- One struct more is open at each step, and they cannot be opened without end.
  induction path using (opens_wellFounded decls).induction generalizing ident with
  | _ path ih =>
    rw [resolve_namesInside hpath] at h
    unfold resolveInside at h
    split at h
    · simp at h
    · simp at h
    · exact absurd h (not_blames_enumType _)
    · rename_i _ hfind
      obtain ⟨hname, hstruct⟩ := find?_struct hfind
      split at h
      · rename_i hmem
        rw [blames_error] at h
        cases h
        exact hreach ident.name hmem
      · rename_i hfresh
        have hopens : Opens decls path (ident.name :: path) := .struct hstruct hfresh
        obtain ⟨_, hexpands, h⟩ := expands_of_field (List.mem_of_find?_eq_some hfind) h
        rw [hname] at hexpands
        refine ih _ hopens (hpath.tail hopens) ?_ h
        intro outer houter
        rcases List.mem_cons.mp houter with rfl | houter
        · exact .single hexpands
        · exact (hreach outer houter).tail hexpands

theorem blames_symbolsOf {rest : List TopLevel} (h : Blames name (symbolsOf decls rest)) :
    ∃ decl ∈ rest, Blames name (typeOf decls decl) := by
  induction rest with
  | nil => simp [symbolsOf] at h
  | cons decl _ ih =>
    rcases blames_bind.mp h with h | ⟨_, -, h⟩
    · exact ⟨decl, List.mem_cons_self, h⟩
    · rcases blames_bind.mp h with h | ⟨_, -, h⟩
      · obtain ⟨other, hother, h⟩ := ih h
        exact ⟨other, List.mem_cons_of_mem _ hother, h⟩
      · simp at h

theorem expands_of_blames (hnodup : (decls.map (·.name.name)).Nodup)
    (h : Blames name (populate decls)) :
    Relation.TransGen (Expands decls) name name := by
  obtain ⟨decl, hdecl, h⟩ := blames_symbolsOf h
  cases decl with
  | enum decl => exact absurd h (not_blames_enumType decl)
  | function _ =>
    obtain ⟨t, h⟩ := blames_functionType h
    obtain ⟨ident, -, h⟩ :=
      TypeExpr.expands_of_blames (fun ident hident => isStruct_of_blames hident) h
    exact transGen_of_blames .refl (by simp) h
  | struct decl =>
    have hopens : Opens decls [] [decl.name.name] :=
      .struct (find?_struct (find?_of_nodup hnodup hdecl)).2 (by simp)
    obtain ⟨_, hexpands, h⟩ := expands_of_field hdecl h
    refine transGen_of_blames (.single hopens) ?_ h
    intro outer houter
    rw [List.mem_singleton.mp houter]
    exact .single hexpands

end Declarations

end Laye
