import Laye.Proofs.Lowering.Constants

/-!
# How the variants of enums are numbered

A variant without a value of its own is numbered one more than the variant before it. The loop over
the variants carries that number along and has none after the largest value, which matters only if
the next variant asks for it. `Declarations.Offends` says of a variant what is wrong with it after
those before it, in terms of the numbers alone.

`Declarations.variantValues_of_clear` and `Declarations.variantValues_of_offends` say what the loop
gives for variants none of which offends, and where one does. Both are by induction on the variants
that are left, with the ones before them arbitrary.
-/

namespace Laye.Declarations

/-- The numbers of variants. The first one is numbered `next` if it has no value of its own, and
every other such one is numbered one more than the one before it. -/
def numbersFrom : Nat → List EnumVariant → List Nat
  | _, [] => []
  | next, v :: vs => v.value.getD next :: numbersFrom (v.value.getD next + 1) vs

/-- The variant cannot come after those in `before`: its name is taken, or it has no value of its
own and directly follows the largest value. -/
def Offends (before : List EnumVariant) (v : EnumVariant) : Prop :=
  v.name.name ∈ before.map (·.name.name) ∨
    v.value = none ∧ (numbersFrom 0 before).getLast? = some maxVariant

/-- None of the variants offends after those in `before`. -/
def Clear (before vs : List EnumVariant) : Prop :=
  ∀ others v rest, vs = others ++ v :: rest → ¬ Offends (before ++ others) v

/-- What is wrong with a variant that cannot come after those in `before`. -/
def offence (enum : String) (before : List EnumVariant) (v : EnumVariant) : Problem :=
  if v.name.name ∈ before.map (·.name.name) then .duplicateVariant v.name.name enum
  else .variantOverflow v.name.name

/-- The names of variants with their numbers. -/
def entries (vs : List EnumVariant) : List (String × Nat) :=
  (vs.map (·.name.name)).zip (numbersFrom 0 vs)

/-- The number that is carried along after some variants. -/
def carried (vs : List EnumVariant) : Option Nat :=
  match (numbersFrom 0 vs).getLast? with
  | none => some 0
  | some value => if value < maxVariant then some (value + 1) else none

/-- The number of the last variant goes no further than the largest value. -/
def LastFits (vs : List EnumVariant) : Prop :=
  ∀ value ∈ (numbersFrom 0 vs).getLast?, value ≤ maxVariant

/-- The values that are written down are numbers of 64 bits. -/
def Written (vs : List EnumVariant) : Prop := ∀ v ∈ vs, ∀ value ∈ v.value, value ≤ maxVariant

variable {before vs others : List EnumVariant} {v : EnumVariant}

theorem length_numbersFrom (next : Nat) (vs : List EnumVariant) :
    (numbersFrom next vs).length = vs.length := by
  induction vs generalizing next with
  | nil => rfl
  | cons v _ ih => simp [numbersFrom, ih]

/-- A variant at the end is numbered by the one before it. -/
theorem numbersFrom_concat (next : Nat) (vs : List EnumVariant) (v : EnumVariant) :
    numbersFrom next (vs ++ [v]) = numbersFrom next vs ++
      [v.value.getD (((numbersFrom next vs).getLast?.map (· + 1)).getD next)] := by
  induction vs generalizing next with
  | nil => rfl
  | cons w vs ih =>
    simp only [List.cons_append, numbersFrom, ih, List.getLast?_cons]
    cases (numbersFrom (w.value.getD next + 1) vs).getLast? <;> rfl

theorem map_fst_entries (vs : List EnumVariant) : (entries vs).map (·.1) = vs.map (·.name.name) :=
  List.map_fst_zip (by simp [length_numbersFrom])

theorem map_snd_entries (vs : List EnumVariant) : (entries vs).map (·.2) = numbersFrom 0 vs :=
  List.map_snd_zip (by simp [length_numbersFrom])

/-- The loop takes a name to be in use exactly if one of the variants before has it. -/
theorem any_entries (vs : List EnumVariant) (name : String) :
    (entries vs).any (·.1 == name) = decide (name ∈ vs.map (·.name.name)) := by
  rw [← map_fst_entries, Bool.eq_iff_iff]
  simp [List.any_eq_true]

/-- Where the number that is carried along is missing, the variant before has the largest value. -/
theorem carried_eq (hle : LastFits vs) :
    carried vs = if (numbersFrom 0 vs).getLast? = some maxVariant then none
      else some (((numbersFrom 0 vs).getLast?.map (· + 1)).getD 0) := by
  unfold carried
  cases hlast : (numbersFrom 0 vs).getLast? with
  | none => rfl
  | some value =>
    have hvalue : value ≤ maxVariant := hle value hlast
    by_cases hmax : value = maxVariant
    · simp [hmax]
    · simp [hmax, Nat.lt_of_le_of_ne hvalue hmax]

theorem clear_cons : Clear before (v :: vs) ↔ ¬ Offends before v ∧ Clear (before ++ [v]) vs := by
  constructor
  · intro h
    refine ⟨by simpa using h [] v vs rfl, fun others w rest heq => ?_⟩
    simpa using h (v :: others) w rest (by rw [heq, List.cons_append])
  · rintro ⟨hfirst, hrest⟩ others w rest heq
    cases others with
    | nil =>
      cases heq
      simpa using hfirst
    | cons u others =>
      cases heq
      simpa using hrest others w rest rfl

/-- One turn of the loop, for a variant that does not offend. -/
theorem variantValues_cons (enum : String) (hle : LastFits before)
    (h : ¬ Offends before v) :
    variantValues enum (v :: vs) (carried before) (entries before) =
      variantValues enum vs (carried (before ++ [v])) (entries (before ++ [v])) := by
  simp only [Offends, not_or, not_and] at h
  obtain ⟨hname, hvalue⟩ := h
  have hnumber : v.value.or (carried before) =
      some (v.value.getD (((numbersFrom 0 before).getLast?.map (· + 1)).getD 0)) := by
    rw [carried_eq hle]
    cases hv : v.value with
    | none => simp [hvalue hv]
    | some _ => rfl
  rw [variantValues, any_entries, decide_eq_false hname]
  simp only [Bool.false_eq_true, if_false, hnumber]
  congr 1
  · simp [carried, numbersFrom_concat]
  · simp only [entries, numbersFrom_concat, List.map_append, List.map_cons, List.map_nil]
    rw [List.zip_append (by simp [length_numbersFrom])]
    rfl

/-- One turn of the loop, for a variant that offends. -/
theorem variantValues_offends (enum : String) (hle : LastFits before)
    (h : Offends before v) :
    variantValues enum (v :: vs) (carried before) (entries before) =
      .error ⟨v.name.span, offence enum before v⟩ := by
  rw [variantValues, any_entries, offence]
  by_cases hname : v.name.name ∈ before.map (·.name.name)
  · rw [decide_eq_true hname, if_pos rfl, if_pos hname]
  · obtain ⟨hvalue, hmax⟩ := h.resolve_left hname
    have hnone : v.value.or (carried before) = none := by
      rw [carried_eq hle, hvalue, if_pos hmax]
      rfl
    rw [decide_eq_false hname, if_neg hname]
    simp only [Bool.false_eq_true, if_false, hnone]

/-- A variant that does not offend has a number of 64 bits. -/
theorem LastFits.concat (hle : LastFits before)
    (hv : ∀ value ∈ v.value, value ≤ maxVariant) (h : ¬ Offends before v) :
    LastFits (before ++ [v]) := by
  rw [LastFits, numbersFrom_concat, List.getLast?_concat]
  rintro _ ⟨⟩
  cases hvalue : v.value with
  | some value => exact hv value hvalue
  | none =>
    simp only [Offends, not_or, not_and] at h
    have hmax := h.2 hvalue
    cases hlast : (numbersFrom 0 before).getLast? with
    | none => exact Nat.zero_le _
    | some value =>
      rw [hlast] at hmax
      exact Nat.lt_of_le_of_ne (hle value hlast) fun heq => hmax (heq ▸ rfl)

/-- The loop numbers all variants if none of them offends. -/
theorem variantValues_of_clear (enum : String)
    (hle : LastFits before) (hvs : Written vs)
    (h : Clear before vs) :
    variantValues enum vs (carried before) (entries before) = .ok (entries (before ++ vs)) := by
  induction vs generalizing before with
  | nil => rw [variantValues, List.append_nil]
  | cons v _ ih =>
    obtain ⟨hfirst, hrest⟩ := clear_cons.mp h
    obtain ⟨hv, hvs⟩ := List.forall_mem_cons.mp hvs
    rw [variantValues_cons enum hle hfirst, ih (hle.concat hv hfirst) hvs hrest]
    simp

/-- The loop stops at the first variant that offends. -/
theorem variantValues_of_offends (enum : String) (rest : List EnumVariant)
    (hle : LastFits before)
    (hothers : Written others) (hclear : Clear before others) (h : Offends (before ++ others) v) :
    variantValues enum (others ++ v :: rest) (carried before) (entries before) =
      .error ⟨v.name.span, offence enum (before ++ others) v⟩ := by
  induction others generalizing before with
  | nil =>
    rw [List.append_nil] at h ⊢
    exact variantValues_offends enum hle h
  | cons w others ih =>
    obtain ⟨hfirst, hrest⟩ := clear_cons.mp hclear
    obtain ⟨hw, hothers⟩ := List.forall_mem_cons.mp hothers
    rw [List.append_cons before w others] at h ⊢
    rw [List.cons_append, variantValues_cons enum hle hfirst]
    exact ih (hle.concat hw hfirst) hothers hrest h

/-- Where some variant offends, there is a first one that does. -/
theorem clear_or_offends (before vs : List EnumVariant) : Clear before vs ∨
    ∃ others v rest, vs = others ++ v :: rest ∧ Clear before others ∧
      Offends (before ++ others) v := by
  induction vs generalizing before with
  | nil => exact .inl fun others v rest heq => by simp at heq
  | cons v vs ih =>
    by_cases hv : Offends before v
    · exact .inr ⟨[], v, vs, rfl, fun _ _ _ heq => by simp at heq, by simpa using hv⟩
    · rcases ih (before ++ [v]) with hclear | ⟨others, w, rest, rfl, hclear, hw⟩
      · exact .inl (clear_cons.mpr ⟨hv, hclear⟩)
      · exact .inr ⟨v :: others, w, rest, rfl, clear_cons.mpr ⟨hv, hclear⟩, by simpa using hw⟩

theorem nodup_names_iff : (vs.map (·.name.name)).Nodup ↔
    ∀ others v rest, vs = others ++ v :: rest → v.name.name ∉ others.map (·.name.name) := by
  constructor
  · rintro h others v rest rfl hmem
    rw [List.map_append, List.map_cons, List.nodup_append] at h
    exact h.2.2 _ hmem _ List.mem_cons_self rfl
  · intro h
    induction vs with
    | nil => exact List.nodup_nil
    | cons v _ ih =>
      rw [List.map_cons, List.nodup_cons]
      refine ⟨fun hmem => ?_, ih fun others w rest heq hmem => ?_⟩
      · obtain ⟨w, hw, hname⟩ := List.mem_map.mp hmem
        obtain ⟨others, rest, rfl⟩ := List.append_of_mem hw
        exact h (v :: others) w rest rfl (by simp [hname])
      · exact h (v :: others) w rest (by rw [heq, List.cons_append]) (by simp [hmem])

theorem clear_iff : Clear [] vs ↔ (vs.map (·.name.name)).Nodup ∧
    ∀ others v rest, vs = others ++ v :: rest → v.value = none →
      (numbersFrom 0 others).getLast? ≠ some maxVariant := by
  simp only [Clear, Offends, List.nil_append, not_or, not_and, nodup_names_iff]
  exact ⟨fun h => ⟨fun o v r heq => (h o v r heq).1, fun o v r heq => (h o v r heq).2⟩,
    fun h o v r heq => ⟨h.1 o v r heq, h.2 o v r heq⟩⟩

/-- A unit that declares only an enum reports the fault of the enum, and nothing else. -/
theorem findings_enum (keepGoing : Bool) (source : String) (decl : EnumDecl) :
    (checkProgram keepGoing [⟨source, [.enum decl]⟩]).findings =
      match enumType decl with
      | .ok _ => []
      | .error fault => [.fault fault] := by
  have hscope : declare [.enum decl] =
      .ok ((ScopeStack.start.add decl.name.name 0).getD .start) := rfl
  simp only [checkProgram, ofTrees, List.flatMap_cons, List.flatMap_nil, List.append_nil, hscope]
  cases henum : enumType decl with
  | error _ => simp [populate, symbolsOf, typeOf, henum, bind, Except.bind]
  | ok _ =>
    simp [populate, symbolsOf, typeOf, henum, bind, Except.bind]
    rfl

/-- The variants of an enum are accepted exactly if their names are distinct and none without a
value of its own directly follows the largest value. Then there is an entry for each of them, in
order, with its name and number. Otherwise the one fault that is reported is at the first variant
that offends. -/
theorem enumType_numbers {decl : EnumDecl} (hfit : TopLevel.VariantsFit (.enum decl)) :
    ((∃ ty, enumType decl = .ok ty) ↔ (decl.variants.map (·.name.name)).Nodup ∧
      ∀ others v rest, decl.variants = others ++ v :: rest → v.value = none →
        (numbersFrom 0 others).getLast? ≠ some maxVariant) ∧
    (∀ ty, enumType decl = .ok ty → ∃ variants, ty = .enum decl.name.name variants ∧
      variants.map (·.1) = decl.variants.map (·.name.name) ∧
      variants.map (·.2) = numbersFrom 0 decl.variants ∧
      ∀ variant ∈ variants, variant.2 < UInt64.size) ∧
    ∀ fault, enumType decl = .error fault → ∃ others v rest, decl.variants = others ++ v :: rest ∧
      Offends others v ∧ (∀ earlier w later, others = earlier ++ w :: later → ¬ Offends earlier w) ∧
      fault = ⟨v.name.span, offence decl.name.name others v⟩ ∧
      ∀ keepGoing source,
        (checkProgram keepGoing [⟨source, [.enum decl]⟩]).findings.map Finding.toDiagnostic =
          [⟨.error, v.name.span, fault.problem.message⟩] := by
  have hle : LastFits [] := by simp [LastFits, numbersFrom]
  rw [← clear_iff]
  rcases clear_or_offends [] decl.variants with hclear | ⟨others, v, rest, heq, hclear, hv⟩
  · have hok : enumType decl = .ok (.enum decl.name.name (entries decl.variants)) :=
      Typing.bind_eq_ok.mpr ⟨_, variantValues_of_clear _ hle hfit hclear, rfl⟩
    refine ⟨⟨fun _ => hclear, fun _ => ⟨_, hok⟩⟩, ?_, ?_⟩
    · rintro ty hty
      cases hok.symm.trans hty
      refine ⟨_, rfl, map_fst_entries _, map_snd_entries _, fun variant hmem => ?_⟩
      have hvalue := le_of_variantValues hfit (by simp [carried, numbersFrom])
        (by simp [entries])
        (variantValues_of_clear decl.name.name hle hfit hclear) variant hmem
      exact Nat.lt_of_le_pred (by decide) hvalue
    · intro fault hfault
      cases hok.symm.trans hfault
  · have hothers : Written others := fun w hw => hfit w (by simp [heq, hw])
    have herror : enumType decl = .error ⟨v.name.span, offence decl.name.name others v⟩ := by
      have hrun := variantValues_of_offends decl.name.name rest hle hothers hclear hv
      rw [← heq] at hrun
      exact congrArg (· >>= _) hrun
    refine ⟨⟨fun ⟨ty, hty⟩ => ?_, fun h => absurd hv (h others v rest heq)⟩, fun ty hty => ?_, ?_⟩
    · cases herror.symm.trans hty
    · cases herror.symm.trans hty
    · intro fault hfault
      cases herror.symm.trans hfault
      refine ⟨others, v, rest, heq, hv, hclear, rfl, fun keepGoing source => ?_⟩
      rw [findings_enum, herror]
      rfl

/-- An enum with the largest value in the middle. -/
def brim : EnumDecl :=
  ⟨⟨"brim", .nowhere⟩, [⟨⟨"a", .nowhere⟩, none⟩, ⟨⟨"b", .nowhere⟩, some maxVariant⟩,
    ⟨⟨"c", .nowhere⟩, some 7⟩, ⟨⟨"d", .nowhere⟩, none⟩], .nowhere⟩

theorem enumType_numbers_brim : TopLevel.VariantsFit (.enum brim) ∧
    ∃ variants, enumType brim = .ok (.enum "brim" variants) ∧
      variants.map (·.2) = [0, 18446744073709551615, 7, 8] := by
  have hfit : TopLevel.VariantsFit (.enum brim) := by simp [TopLevel.VariantsFit, brim, maxVariant]
  obtain ⟨variants, htype, -, hnumbers, -⟩ := (enumType_numbers hfit).2.1 _ rfl
  exact ⟨hfit, variants, congrArg Except.ok htype, hnumbers⟩

end Laye.Declarations
