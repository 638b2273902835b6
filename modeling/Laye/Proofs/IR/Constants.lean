import Laye.Proofs.IR.Typing
import Mathlib.Algebra.Ring.Int.Defs
import Mathlib.Data.List.Induction

/-!
# Integer constants in code

An integer constant has no type of its own. Code takes it as a value of some type: that of an
operation, of what a pointer points to, of a parameter or of a result. `Block.ConstantsFit` says
that the constants of a block fit the types that they are taken as. It is stated for any sense of
fitting; `InRange` is the machine's.

What a store takes its value as depends on the types of the registers. In single assignment form
there is no choice of these types for pointers (`Function.SingleAssignment.agreesAt`). So if
constants fit under some types that the code is well typed with, they fit under all:
`Function.SingleAssignment.constantsFit`. -/

namespace Laye.IR

/-- The number is one of the integers of the type. -/
def InRange (n : Int) : Ty → Prop
  | .int true width => -2 ^ (width.bits - 1) ≤ n ∧ n < 2 ^ (width.bits - 1)
  | .int false width => 0 ≤ n ∧ n < 2 ^ width.bits
  | _ => False

instance (n : Int) (ty : Ty) : Decidable (InRange n ty) :=
  match ty with
  | .int true _ => inferInstanceAs (Decidable (_ ∧ _))
  | .int false _ => inferInstanceAs (Decidable (_ ∧ _))
  | .void | .bool | .f32 | .f64 | .ptr _ | .array _ _ | .slice _ | .struct _ | .function _ _ =>
    inferInstanceAs (Decidable False)

/-- If the value is an integer constant, the constant fits the type. -/
def Value.Fits (fits : Int → Ty → Prop) (v : Value) (ty : Ty) : Prop :=
  ∀ n, v = .constant (.int n) → fits n ty

/-- The values are two constants that are taken as 64-bit integers of one signedness, though the
second one fits those of the other. -/
def MixedConstants (fits : Int → Ty → Prop) (left right : Value) (ty : Ty) : Prop :=
  ∃ a b signed, left = .constant (.int a) ∧ right = .constant (.int b) ∧
    ty = .int signed .w64 ∧ fits b (.int (!signed) .w64)

/-- Whether values of the type are addresses, or have one in them. -/
def Ty.isReference : Ty → Bool
  | .ptr _ | .slice _ => true
  | _ => false

section

variable (fits : Int → Ty → Prop) (frame : Frame) (types : List Ty)

/-- The integer constants that the instruction takes fit the types that it takes them as. -/
def Instruction.ConstantsFit : Instruction → Prop
  | .store ptr value => ∀ ty, ptr.HasType frame types (.ptr ty) → value.Fits fits ty
  | .binary _ _ left right ty => left.Fits fits ty ∧
      (right.Fits fits ty ∨ MixedConstants fits left right ty)
  | .call _ callee args => ∀ params ret, frame.module.Declares callee params ret →
      List.Forall₂ (Value.Fits fits) (args.take params.length) params
  | .cast _ value source _ => value.Fits fits source
  | _ => True

/-- A constant that is returned fits the result of the function. -/
def Terminator.ConstantsFit : Terminator → Prop
  | .ret (some value) => value.Fits fits frame.ret
  | _ => True

/-- The constants in the code of a block fit. -/
structure Block.ConstantsFit (block : Block) : Prop where
  instructions : ∀ i ∈ block.instructions, i.ConstantsFit fits frame types
  terminator : ∀ t, block.terminator = some t → t.ConstantsFit fits frame

/-! ### Code with constants that fit -/

/-- The value has the type, and fits it if it is an integer constant. -/
structure Value.Suits (v : Value) (ty : Ty) : Prop where
  hasType : v.HasType frame types ty
  fits : v.Fits fits ty

/-- An operation on one value is not one on addresses. -/
def Instruction.ComputesNumber : Instruction → Prop
  | .unary dest _ _ => ∀ ty, types[dest]? = some ty → ty.isReference = false
  | _ => True

/-- The instruction is well typed, and its constants fit. -/
structure Instruction.Suits (i : Instruction) : Prop where
  wellTyped : i.WellTyped frame types
  constants : i.ConstantsFit fits frame types
  number : i.ComputesNumber types

/-- The end of a block is well typed, and its constant fits. -/
structure Terminator.Suits (t : Terminator) : Prop where
  wellTyped : t.WellTyped frame types
  constants : t.ConstantsFit fits frame

/-- The code of a block is well typed, and its constants fit. -/
structure Block.Suits (block : Block) : Prop where
  instructions : ∀ i ∈ block.instructions, i.Suits fits frame types
  terminator : ∀ t, block.terminator = some t → t.Suits fits frame types

end

variable {fits : Int → Ty → Prop} {frame : Frame} {types types' : List Ty}

variable {v ptr : Value} {ty ty' : Ty} {block : Block} {i : Instruction}

theorem Value.HasType.suits (h : v.HasType frame types ty) (hv : ∀ n, v ≠ .constant (.int n)) :
    v.Suits fits frame types ty :=
  ⟨h, fun n hn => absurd hn (hv n)⟩

theorem Block.Suits.wellTyped (h : block.Suits fits frame types) : block.WellTyped frame types :=
  ⟨fun i hi => (h.instructions i hi).wellTyped, fun t ht => (h.terminator t ht).wellTyped⟩

/-! ### Pointers -/

theorem Value.HasType.fits_of_ne_int (h : v.HasType frame types ty)
    (hty : ∀ signed width, ty ≠ .int signed width) : v.Fits fits ty' := by
  rintro n rfl
  cases h with
  | int _ signed width => exact absurd rfl (hty signed width)

theorem Value.HasType.pointee_eq (h : v.HasType frame types (.ptr ty))
    (h' : v.HasType frame types (.ptr ty')) :
    ty = ty' ∨ ∃ params ret, ty = .function params ret := by
  cases h with
  | register h =>
    cases h' with
    | register h' => exact .inl (Ty.ptr.inj (Option.some.inj (h.symm.trans h')))
  | float _ hty => cases hty
  | bytes _ =>
    cases h' with
    | bytes _ => exact .inl rfl
  | param h =>
    cases h' with
    | param h' =>
      have heq := Option.some.inj (h.symm.trans h')
      exact .inl (Ty.ptr.inj (Prod.mk.inj heq).2)
  | global h => exact .inr ⟨_, _, rfl⟩

theorem Value.HasType.element_eq (h : v.HasType frame types (.slice ty))
    (h' : v.HasType frame types (.slice ty')) : ty = ty' := by
  cases h with
  | register h =>
    cases h' with
    | register h' => exact Ty.slice.inj (Option.some.inj (h.symm.trans h'))
  | float _ hty => cases hty
  | string value =>
    cases h' with
    | string _ => rfl
  | param h =>
    cases h' with
    | param h' => exact Ty.slice.inj (Prod.mk.inj (Option.some.inj (h.symm.trans h'))).2

theorem Value.Suits.fits_pointee (h : v.Suits fits frame types ty)
    (hptr : ptr.HasType frame types' (.ptr ty)) (hptr' : ptr.HasType frame types' (.ptr ty')) :
    v.Fits fits ty' := by
  rcases hptr.pointee_eq hptr' with rfl | ⟨_, _, rfl⟩
  · exact h.fits
  · exact h.hasType.fits_of_ne_int (by simp)

theorem Instruction.suits_store (hptr : ptr.HasType frame types (.ptr ty))
    (h : v.Suits fits frame types ty) : (Instruction.store ptr v).Suits fits frame types :=
  ⟨⟨ty, hptr, h.hasType⟩, fun _ hptr' => h.fits_pointee hptr hptr', trivial⟩

/-! ### Other types for the registers -/

/-- If the register has an address or a slice by the first types, then by the others too. -/
def AgreesAt (types types' : List Ty) (r : Register) : Prop :=
  ∀ ty, ty.isReference = true → types[r]? = some ty → types'[r]? = some ty

theorem Value.HasType.of_agreesAt (h : v.HasType frame types ty) (hty : ty.isReference = true)
    (hagrees : ∀ r, v.register? = some r → AgreesAt types types' r) :
    v.HasType frame types' ty := by
  cases h with
  | register h => exact .register (hagrees _ rfl _ hty h)
  | int _ _ _ | bool _ | unit => cases hty
  | float value h => exact .float value h
  | string value => exact .string value
  | bytes value => exact .bytes value
  | param h => exact .param h
  | global h => exact .global h

/-- The constants of an instruction fit by other types, if the registers that it reads have the same
addresses by them. -/
theorem Instruction.Suits.constants_of_agreesAt (h : i.Suits fits frame types)
    (hagrees : ∀ r ∈ i.uses, AgreesAt types types' r) : i.ConstantsFit fits frame types' := by
  cases i with
  | store ptr value =>
    obtain ⟨ty, hptr, hvalue⟩ := h.wellTyped
    have hsuits : value.Suits fits frame types ty := ⟨hvalue, h.constants ty hptr⟩
    have hptr' : ptr.HasType frame types' (.ptr ty) := hptr.of_agreesAt rfl fun r hr =>
      hagrees r (mem_uses_store.mpr (.inl hr))
    exact fun ty' hty' => hsuits.fits_pointee hptr' hty'
  | _ => exact h.constants

/-- An instruction gives its register the same address by both types, if those that it reads have
the same ones. -/
theorem Instruction.Suits.agreesAt_dest (h : i.Suits fits frame types)
    (h' : i.WellTyped frame types') (hagrees : ∀ r ∈ i.uses, AgreesAt types types' r)
    {dest : Register} (hdest : i.dest? = some dest) : AgreesAt types types' dest := by
  obtain ⟨h, -, hnumber⟩ := h
  -- Most instructions say themselves which type their result has.
  have hsame : ∀ {ty : Ty}, types[dest]? = some ty → types'[dest]? = some ty →
      AgreesAt types types' dest := fun hty hty' ty' _ hty'' => by
    rw [hty', ← hty, hty'']
  cases i with
  | alloca _ _ =>
    cases hdest
    exact hsame h h'
  | load _ ptr ty | cast _ ptr _ ty | materialize _ _ _ =>
    cases hdest
    exact hsame h.2 h'.2
  | store _ _ => cases hdest
  | binary _ _ _ _ _ | element _ _ _ _ =>
    cases hdest
    exact hsame h.2.2 h'.2.2
  | unary _ _ _ =>
    cases hdest
    intro ty href hty
    rw [hnumber ty hty] at href
    cases href
  | call _ _ _ =>
    cases hdest
    obtain ⟨-, ⟨_, _, hdeclares⟩, hfits⟩ := h
    rcases (hfits _ _ hdeclares).result with ⟨hnone, -⟩ | ⟨_, hr, hty⟩
    · cases hnone
    rcases (h'.2.2 _ _ hdeclares).result with ⟨hnone, -⟩ | ⟨_, hr', hty'⟩
    · cases hnone
    cases hr
    cases hr'
    exact hsame hty hty'
  | sliceData _ value =>
    cases hdest
    obtain ⟨_, hvalue, hty⟩ := h
    obtain ⟨_, hvalue', hty'⟩ := h'
    have hvalue := hvalue.of_agreesAt rfl fun r hr =>
      hagrees r (List.mem_filterMap.mpr ⟨value, List.mem_singleton.mpr rfl, hr⟩)
    cases hvalue.element_eq hvalue'
    exact hsame hty hty'
  | field _ _ _ _ =>
    cases hdest
    obtain ⟨-, ⟨s, hs, hname⟩, hfields⟩ := h
    obtain ⟨_, hfield, hty⟩ := hfields s hs hname
    obtain ⟨_, hfield', hty'⟩ := h'.2.2 s hs hname
    cases hfield.symm.trans hfield'
    exact hsame hty hty'

/-! ### More registers -/

theorem agreesAt_of_prefix (htypes : types <+: types') (r : Register) : AgreesAt types types' r :=
  fun _ _ h => getElem?_mono htypes h

theorem Value.Suits.mono (h : v.Suits fits frame types ty) (htypes : types <+: types') :
    v.Suits fits frame types' ty :=
  ⟨h.hasType.mono htypes, h.fits⟩

theorem Instruction.Suits.mono (h : i.Suits fits frame types) (htypes : types <+: types') :
    i.Suits fits frame types' := by
  refine ⟨h.wellTyped.mono htypes,
    h.constants_of_agreesAt fun r _ => agreesAt_of_prefix htypes r, ?_⟩
  cases i with
  | unary _ _ _ =>
    obtain ⟨ty, -, hdest, -⟩ := h.wellTyped
    intro ty' hty'
    rw [getElem?_mono htypes hdest] at hty'
    cases hty'
    exact h.number ty hdest
  | _ => trivial

theorem Block.Suits.mono (h : block.Suits fits frame types) (htypes : types <+: types') :
    block.Suits fits frame types' :=
  ⟨fun i hi => (h.instructions i hi).mono htypes, fun t ht =>
    ⟨(h.terminator t ht).wellTyped.mono htypes, (h.terminator t ht).constants⟩⟩

/-! ### Blocks -/

theorem Block.suits_empty (id : BlockId) (label : String) :
    (Block.empty id label).Suits fits frame types :=
  ⟨by simp [Block.empty], by simp [Block.empty]⟩

theorem Block.Suits.push (h : block.Suits fits frame types) (hi : i.Suits fits frame types) :
    (block.push i).Suits fits frame types := by
  refine ⟨fun j hj => ?_, h.terminator⟩
  rcases List.mem_append.mp hj with hj | hj
  · exact h.instructions j hj
  · rw [List.mem_singleton.mp hj]
    exact hi

theorem Block.Suits.close (h : block.Suits fits frame types) {t : Terminator}
    (ht : t.Suits fits frame types) : (block.close t).Suits fits frame types := by
  refine ⟨h.instructions, ?_⟩
  rintro _ ⟨⟩
  exact ht

/-! ### Single assignment -/

namespace Function.SingleAssignment

variable {g : Function} (hssa : g.SingleAssignment)
  (h : ∀ block ∈ g.blocks, block.Suits fits frame types)
  (h' : ∀ block ∈ g.blocks, block.WellTyped frame types')
include hssa h h'

variable {before : List BlockId} {id : BlockId}

theorem agreesAt_within {block : Block} (hpath : g.Path before id)
    (hblock : g.blocks[id]? = some block)
    (hbefore : ∀ r ∈ Instruction.dests (g.codeAlong before), AgreesAt types types' r)
    {done rest : List Instruction} (hsplit : block.instructions = done ++ rest) :
    ∀ r ∈ Instruction.dests done, AgreesAt types types' r := by
  have hmem := List.mem_of_getElem? hblock
  -- By induction on the code that has run, with its last instruction split off.
  induction done using List.reverseRecOn generalizing rest with
  | nil => simp
  | append_singleton _ i ih =>
    rw [List.append_assoc, List.singleton_append] at hsplit
    have hdone := ih hsplit
    have hi : i ∈ block.instructions := by simp [hsplit]
    intro r hr
    rw [Instruction.dests_append, List.mem_append] at hr
    rcases hr with hr | hr
    · exact hdone r hr
    obtain ⟨j, hj, hdest⟩ := Instruction.mem_dests.mp hr
    cases List.mem_singleton.mp hj
    refine ((h block hmem).instructions i hi).agreesAt_dest
      ((h' block hmem).instructions i hi) ?_ hdest
    -- What the instruction reads was defined before it.
    intro use huse
    have hdefined := hssa.instructions hpath hblock hsplit huse
    rw [Instruction.dests_append, List.mem_append] at hdefined
    exact hdefined.elim (hbefore use) (hdone use)

theorem agreesAt (hpath : g.Path before id) :
    ∀ r ∈ Instruction.dests (g.codeAlong before), AgreesAt types types' r := by
  induction hpath with
  | entry => simp [codeAlong]
  | @edge _ id _ block hpath hblock _ ih =>
    intro r hr
    rw [codeAlong, List.flatMap_append, Instruction.dests_append, List.mem_append] at hr
    rcases hr with hr | hr
    · exact ih r hr
    · have hcode : g.codeAt id = block.instructions := by simp [codeAt, hblock]
      rw [List.flatMap_singleton, hcode] at hr
      exact hssa.agreesAt_within h h' hpath hblock ih (List.append_nil _).symm r hr

/-- If the constants fit by some types that the code is well typed with, they fit by all. -/
theorem constantsFit {block : Block} (hpath : g.Path before id)
    (hblock : g.blocks[id]? = some block) : block.ConstantsFit fits frame types' := by
  have hmem := List.mem_of_getElem? hblock
  refine ⟨fun i hi => ?_, fun t ht => ((h block hmem).terminator t ht).constants⟩
  obtain ⟨_, _, hsplit⟩ := List.append_of_mem hi
  refine ((h block hmem).instructions i hi).constants_of_agreesAt fun r hr => ?_
  have hbefore := hssa.agreesAt h h' hpath
  have hdefined := hssa.instructions hpath hblock hsplit hr
  rw [Instruction.dests_append, List.mem_append] at hdefined
  exact hdefined.elim (hbefore r) (hssa.agreesAt_within h h' hpath hblock hbefore hsplit r)

end Function.SingleAssignment

end Laye.IR
