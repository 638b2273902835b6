import Laye.Proofs.IR.ControlFlow
import Mathlib.Data.List.Forall2

/-!
# Well-typed code

Instructions carry few types, and registers none. Code is well typed if types can be given to the
registers so that each instruction finds operands of the types it works on and leaves its register
with the type of its result. `Value.HasType`, `Instruction.WellTyped` and `Terminator.WellTyped` are
the rules, given the types of the registers in order; `Function.WellTyped` asks for some that fit
all the code of a function. More registers do no harm: see `Instruction.WellTyped.mono`. -/

namespace Laye.IR

/-- The module has a function of the name, of its own or from elsewhere, that takes and gives values
of these types. -/
inductive Module.Declares (m : Module) (name : String) : List Ty → Ty → Prop where
  | function {g : Function} (hg : g ∈ m.functions) (hname : g.name = name) :
      Declares m name (g.params.map Prod.snd) g.ret
  | external {e : External} (he : e ∈ m.externals) (hname : e.name = name) :
      Declares m name (e.params.map Prod.snd) e.ret

/-- Where the code of a function stands: the module around it, its parameters and its result. -/
structure Frame where
  module : Module
  params : List (String × Ty)
  ret : Ty

/-- The value has the type. A constant has no type of its own and counts as any of its kind. -/
inductive Value.HasType (frame : Frame) (types : List Ty) : Value → Ty → Prop where
  | register {r : Register} {ty : Ty} (h : types[r]? = some ty) :
      HasType frame types (.register r) ty
  | int (value : Int) (signed : Bool) (width : Width) :
      HasType frame types (.constant (.int value)) (.int signed width)
  | float (value : Float) {ty : Ty} (h : ty.isFloat = true) :
      HasType frame types (.constant (.float value)) ty
  | bool (value : Bool) : HasType frame types (.constant (.bool value)) .bool
  | string (value : String) :
      HasType frame types (.constant (.string value)) (.slice (.int false .w8))
  /-- The address of the bytes of a string. -/
  | bytes (value : String) : HasType frame types (.constant (.string value)) (.ptr (.int false .w8))
  | param {place : Nat} {name : String} {ty : Ty} (h : frame.params[place]? = some (name, ty)) :
      HasType frame types (.param place) ty
  | global {name : String} {params : List Ty} {ret : Ty}
      (h : frame.module.Declares name params ret) :
      HasType frame types (.global name) (.ptr (.function params ret))
  | unit : HasType frame types .unit .void

/-- Whether the operation compares its operands. -/
def BinaryOp.isComparison : BinaryOp → Bool
  | .eq | .ne | .lt | .le | .gt | .ge => true
  | _ => false

/-- The type of what the operation gives, by that of its operands. -/
def BinaryOp.resultType (op : BinaryOp) (ty : Ty) : Ty := if op.isComparison then .bool else ty

/-- The arguments and the register of a call fit a function. -/
structure FitsCall (frame : Frame) (types : List Ty) (args : List Value) (dest : Option Register)
    (params : List Ty) (ret : Ty) : Prop where
  leading : List.Forall₂ (Value.HasType frame types) (args.take params.length) params
  /-- Only the result of a function that gives none is dropped. -/
  result : dest = none ∧ ret = .void ∨ ∃ r, dest = some r ∧ types[r]? = some ret

/-- The instruction is well typed. What it says of a named function or struct holds of all that the
module has under the name, and there is one. -/
def Instruction.WellTyped (frame : Frame) (types : List Ty) : Instruction → Prop
  | .alloca dest ty => types[dest]? = some (.ptr ty)
  | .load dest ptr ty => ptr.HasType frame types (.ptr ty) ∧ types[dest]? = some ty
  | .store ptr value => ∃ ty, ptr.HasType frame types (.ptr ty) ∧ value.HasType frame types ty
  | .binary dest op left right ty => left.HasType frame types ty ∧ right.HasType frame types ty ∧
      types[dest]? = some (op.resultType ty)
  | .unary dest op value => ∃ ty, value.HasType frame types ty ∧ types[dest]? = some ty ∧
      (op = .not → ty = .bool)
  | .call dest name args => (∀ arg ∈ args, ∃ ty, arg.HasType frame types ty) ∧
      (∃ params ret, frame.module.Declares name params ret) ∧
      ∀ params ret, frame.module.Declares name params ret →
        FitsCall frame types args dest params ret
  | .cast dest value source target => value.HasType frame types source ∧ types[dest]? = some target
  | .materialize dest value ty => value.HasType frame types ty ∧ types[dest]? = some ty
  | .sliceData dest value => ∃ ty, value.HasType frame types (.slice ty) ∧
      types[dest]? = some (.ptr ty)
  | .element dest ptr index ty =>
    (ptr.HasType frame types (.ptr ty) ∨ ∃ size, ptr.HasType frame types (.ptr (.array ty size))) ∧
    (∃ signed width, index.HasType frame types (.int signed width)) ∧ types[dest]? = some (.ptr ty)
  | .field dest ptr struct place => ptr.HasType frame types (.ptr (.struct struct)) ∧
      (∃ s ∈ frame.module.structs, s.name = struct) ∧
      ∀ s ∈ frame.module.structs, s.name = struct →
        ∃ field, s.fields[place]? = some field ∧ types[dest]? = some (.ptr field.2)

/-- The end of a block is well typed. -/
def Terminator.WellTyped (frame : Frame) (types : List Ty) : Terminator → Prop
  | .ret none => frame.ret = .void
  | .ret (some value) => value.HasType frame types frame.ret
  | .branch condition _ _ => condition.HasType frame types .bool
  | .jump _ | .unreachable => True

/-- The code of a block is well typed. -/
structure Block.WellTyped (frame : Frame) (types : List Ty) (block : Block) : Prop where
  instructions : ∀ i ∈ block.instructions, i.WellTyped frame types
  terminator : ∀ t, block.terminator = some t → t.WellTyped frame types

/-- There are types for the registers of the function, in order, under which all its code is well
typed. -/
def Function.WellTyped (m : Module) (g : Function) : Prop :=
  ∃ types, ∀ block ∈ g.blocks, block.WellTyped ⟨m, g.params, g.ret⟩ types

/-! ### Operands -/

variable {frame : Frame} {types types' : List Ty}

variable {v : Value}

/-- Each operand of a well-typed instruction has a type. -/
theorem Instruction.WellTyped.operand {i : Instruction} (h : i.WellTyped frame types)
    (hv : v ∈ i.operands) : ∃ ty, v.HasType frame types ty := by
  cases i with
  | alloca => cases hv
  | load _ _ _ | cast dest value _ _ | materialize _ _ _ | field _ _ _ _ =>
    cases List.mem_singleton.mp hv
    exact ⟨_, h.1⟩
  | store _ _ =>
    obtain ⟨_, hptr, hvalue⟩ := h
    simp only [operands, List.mem_cons, List.not_mem_nil, or_false] at hv
    rcases hv with rfl | rfl
    · exact ⟨_, hptr⟩
    · exact ⟨_, hvalue⟩
  | binary _ _ _ _ _ =>
    simp only [operands, List.mem_cons, List.not_mem_nil, or_false] at hv
    rcases hv with rfl | rfl
    · exact ⟨_, h.1⟩
    · exact ⟨_, h.2.1⟩
  | unary dest _ value | sliceData _ _ =>
    cases List.mem_singleton.mp hv
    obtain ⟨_, hvalue, -⟩ := h
    exact ⟨_, hvalue⟩
  | call _ _ _ => exact h.1 v hv
  | element _ _ _ _ =>
    obtain ⟨hptr, ⟨_, _, hindex⟩, -⟩ := h
    simp only [operands, List.mem_cons, List.not_mem_nil, or_false] at hv
    rcases hv with rfl | rfl
    · rcases hptr with hptr | ⟨_, hptr⟩ <;> exact ⟨_, hptr⟩
    · exact ⟨_, hindex⟩

theorem Terminator.WellTyped.operand {t : Terminator} (h : t.WellTyped frame types)
    (hv : v ∈ t.operands) : ∃ ty, v.HasType frame types ty := by
  cases t with
  | ret value =>
    cases value with
    | none => cases hv
    | some _ =>
      cases List.mem_singleton.mp hv
      exact ⟨_, h⟩
  | branch _ _ _ =>
    cases List.mem_singleton.mp hv
    exact ⟨_, h⟩
  | _ => cases hv

theorem Value.HasType.param_lt {place : Nat} {ty : Ty} (h : HasType frame types (.param place) ty) :
    place < frame.params.length := by
  cases h with
  | param h => exact (List.getElem?_eq_some_iff.mp h).1

/-! ### More registers -/

theorem getElem?_mono (htypes : types <+: types') {r : Register} {ty : Ty}
    (h : types[r]? = some ty) : types'[r]? = some ty := by
  obtain ⟨_, rfl⟩ := htypes
  rw [List.getElem?_append_left (List.getElem?_eq_some_iff.mp h).1]
  exact h

/-- A value keeps its type when more registers are defined. -/
theorem Value.HasType.mono {ty : Ty} (h : v.HasType frame types ty) (htypes : types <+: types') :
    v.HasType frame types' ty := by
  cases h with
  | register h => exact .register (getElem?_mono htypes h)
  | int value signed width => exact .int value signed width
  | float value h => exact .float value h
  | bool value => exact .bool value
  | string value => exact .string value
  | bytes value => exact .bytes value
  | param h => exact .param h
  | global h => exact .global h
  | unit => exact .unit

theorem FitsCall.mono {args : List Value} {dest : Option Register} {params : List Ty} {ret : Ty}
    (h : FitsCall frame types args dest params ret) (htypes : types <+: types') :
    FitsCall frame types' args dest params ret := by
  refine ⟨h.leading.imp fun _ _ harg => harg.mono htypes, ?_⟩
  rcases h.result with hnone | ⟨r, hdest, hr⟩
  · exact .inl hnone
  · exact .inr ⟨r, hdest, getElem?_mono htypes hr⟩

theorem Instruction.WellTyped.mono {i : Instruction} (h : i.WellTyped frame types)
    (htypes : types <+: types') : i.WellTyped frame types' := by
  cases i with
  | alloca _ _ => exact getElem?_mono htypes h
  | load _ _ _ | cast _ _ _ _ | materialize _ _ _ =>
    exact ⟨h.1.mono htypes, getElem?_mono htypes h.2⟩
  | store _ _ =>
    obtain ⟨ty, hptr, hvalue⟩ := h
    exact ⟨ty, hptr.mono htypes, hvalue.mono htypes⟩
  | binary _ _ _ _ _ =>
    exact ⟨h.1.mono htypes, h.2.1.mono htypes, getElem?_mono htypes h.2.2⟩
  | unary _ _ _ =>
    obtain ⟨ty, hvalue, hdest, hnot⟩ := h
    exact ⟨ty, hvalue.mono htypes, getElem?_mono htypes hdest, hnot⟩
  | call _ _ _ =>
    obtain ⟨hargs, hcallee, hfits⟩ := h
    refine ⟨fun arg harg => ?_, hcallee, fun params ret h => (hfits params ret h).mono htypes⟩
    obtain ⟨ty, hty⟩ := hargs arg harg
    exact ⟨ty, hty.mono htypes⟩
  | sliceData _ _ =>
    obtain ⟨ty, hvalue, hdest⟩ := h
    exact ⟨ty, hvalue.mono htypes, getElem?_mono htypes hdest⟩
  | element _ _ _ _ =>
    obtain ⟨hptr, ⟨signed, width, hindex⟩, hdest⟩ := h
    refine ⟨?_, ⟨signed, width, hindex.mono htypes⟩, getElem?_mono htypes hdest⟩
    rcases hptr with hptr | ⟨size, hptr⟩
    · exact .inl (hptr.mono htypes)
    · exact .inr ⟨size, hptr.mono htypes⟩
  | field _ _ _ _ =>
    obtain ⟨hptr, hstruct, hfields⟩ := h
    refine ⟨hptr.mono htypes, hstruct, fun s hs hname => ?_⟩
    obtain ⟨field, hfield, hdest⟩ := hfields s hs hname
    exact ⟨field, hfield, getElem?_mono htypes hdest⟩

theorem Terminator.WellTyped.mono {t : Terminator} (h : t.WellTyped frame types)
    (htypes : types <+: types') : t.WellTyped frame types' := by
  cases t with
  | ret value =>
    cases value with
    | none => exact h
    | some _ => exact Value.HasType.mono h htypes
  | branch _ _ _ => exact Value.HasType.mono h htypes
  | _ => trivial

/-! ### Blocks -/

/-- The values that the code of a block reads. -/
def Block.operands (block : Block) : List Value :=
  block.instructions.flatMap Instruction.operands ++ block.terminator.elim [] Terminator.operands

/-- Each operand in a well-typed block has a type. -/
theorem Block.WellTyped.operand {block : Block} (h : block.WellTyped frame types)
    (hv : v ∈ block.operands) : ∃ ty, v.HasType frame types ty := by
  rcases List.mem_append.mp hv with hv | hv
  · obtain ⟨i, hi, hv⟩ := List.mem_flatMap.mp hv
    exact (h.instructions i hi).operand hv
  · cases ht : block.terminator with
    | none =>
      rw [ht] at hv
      cases hv
    | some t =>
      rw [ht] at hv
      exact (h.terminator t ht).operand hv

end Laye.IR
