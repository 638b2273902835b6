import Laye.Proofs.Lowering.RegisterTypes
import Laye.Proofs.Typing.Scoping
import Laye.Proofs.Typing.Writing

/-!
# Lowering gives well-typed code

Well-typed expressions and statements lower to well-typed code, in a module that has the functions
and structs that their symbols stand for (`Lowering.Renders`). The code of an expression leaves an
operand of the machine's type for the expression's: `Typed.Expr.types_lower`. A type and what it is
expanded to have one machine type (`Lowering.Renders.shape_expand`), and a field is found in the
struct of the module because every struct in the type of an expression is the one that its name
stands for.

The constants of the code are the literals of the expression. So the same induction says that they
fit (`IR.Value.Fits`), for whatever `fits` holds of the literals (`Typed.Expr.LiteralIn`). -/

namespace Laye

open IR (Frame)

/-! ### Types of the machine -/

namespace Ty

@[simp] theorem shape_indirect (ty : Ty) : ty.indirect.shape = ty.shape := by
  cases ty <;> simp [indirect, shape]

theorem paramShapes_eq (params : List (String × Ty)) :
    paramShapes params = params.map fun param => param.2.shape := by
  induction params with
  | nil => rw [paramShapes, List.map_nil]
  | cons _ _ ih => rw [paramShapes, List.map_cons, ih]

theorem shape_function (signature : Signature) :
    (Ty.function signature).shape =
      .ptr (.function (paramShapes signature.params) signature.returnType.shape) := by
  cases signature
  simp [shape, signatureShape]

theorem shape_of_isInteger {ty : Ty} (h : ty.isInteger = true) :
    ∃ signed width, ty.shape = .int signed width := by
  cases ty with
  | int signed => exact ⟨signed, .w64, by simp [shape]⟩
  | sizedInt signed bits => exact ⟨signed, machineWidth bits, by simp [shape]⟩
  | _ => cases h

end Ty

/-- The module has what the symbols of a program stand for: under the name of a function only
functions of its type, and under the name of a struct only structs with its fields. -/
structure Lowering.Renders (symbols : SymbolTable) (m : IR.Module) : Prop where
  callee : ∀ symbol ∈ symbols, ∀ signature, symbol.signature? = some signature →
    ∀ params ret, m.Declares symbol.name params ret ↔
      params = Ty.paramShapes signature.params ∧ ret = signature.returnType.shape
  struct : ∀ name typeParams fields,
    symbols.structType? name = some (.struct name typeParams fields) →
      (∃ s ∈ m.structs, s.name = name) ∧
        ∀ s ∈ m.structs, s.name = name → s.fields = namedShapes fields
  /-- A function is of a function type. -/
  function : ∀ symbol ∈ symbols, symbol.kind = .function → symbol.signature?.isSome = true
  /-- A struct is of the struct type of its name. -/
  reference : ∀ name ty, symbols.structType? name = some ty → ty.shape = .struct name

namespace Lowering.Renders

variable {symbols : SymbolTable} {m : IR.Module}

theorem shape_expand (h : Renders symbols m) (ty : Ty) :
    (symbols.expand ty).shape = ty.shape := by
  cases ty with
  | structRef name =>
    simp only [SymbolTable.expand]
    cases hstruct : symbols.structType? name with
    | none => rfl
    | some struct => rw [Option.getD_some, h.reference name struct hstruct, Ty.shape]
  | _ => rfl

theorem shape_of_function (h : Renders symbols m) {symbol : Symbol} (hmem : symbol ∈ symbols)
    (hkind : symbol.kind = .function) : ∃ params ret, m.Declares symbol.name params ret ∧
      symbol.ty.shape = .ptr (.function params ret) := by
  obtain ⟨signature, hsignature⟩ := Option.isSome_iff_exists.mp (h.function symbol hmem hkind)
  refine ⟨_, _, (h.callee symbol hmem signature hsignature _ _).mpr ⟨rfl, rfl⟩, ?_⟩
  unfold Symbol.signature? at hsignature
  split at hsignature
  · rename_i hty
    cases hsignature
    rw [hty, Ty.shape_function]
  · cases hsignature

end Lowering.Renders

/-! ### Operands -/

/-- The operand is of the type, as a value that suits it or as the address of one. -/
def Operand.Suits (fits : Int → IR.Ty → Prop) (frame : Frame) (types : List IR.Ty) (ty : IR.Ty) :
    Operand → Prop
  | .value v => v.Suits fits frame types ty
  | .place ptr => ptr.HasType frame types (.ptr ty)

namespace Lower.Types

variable {fits : Int → IR.Ty → Prop} {frame : Frame} {symbols : SymbolTable}
  {types : List IR.Ty} {ty : Ty}

theorem load {op : Operand} (h : op.Suits fits frame types ty.shape) :
    Types fits frame symbols types (op.load ty)
      fun types' v => v.Suits fits frame types' ty.shape := by
  cases op with
  | value v => exact pure h
  | place _ =>
    exact define ⟨⟨IR.Value.HasType.mono h (List.prefix_append _ _), List.getElem?_concat_length⟩,
      trivial, trivial⟩

theorem loaded {lowered : Lower Operand} (h : Types fits frame symbols types lowered
      fun types' op => op.Suits fits frame types' ty.shape) :
    Types fits frame symbols types (do (← lowered).load ty) fun types' v =>
      v.Suits fits frame types' ty.shape :=
  h.bind fun _ _ _ hop => load hop

theorem address {op : Operand} (h : op.Suits fits frame types ty.shape) :
    Types fits frame symbols types (op.address ty) fun types' v =>
      v.HasType frame types' (.ptr ty.shape) := by
  cases op with
  | place _ => exact pure h
  | value v =>
    refine (reserve _).bind fun types1 slot hlonger hslot => ?_
    refine (storeSlot hslot (IR.Value.Suits.mono h hlonger)).bind fun types2 _ hlonger' _ => ?_
    exact pure (.register (IR.getElem?_mono hlonger' hslot))

theorem computed {i : IR.Register → IR.Instruction} {ty : IR.Ty}
    (h : (i types.length).Suits fits frame (types ++ [ty])) :
    Types fits frame symbols types (Lowering.computed i)
      fun types' op => op.Suits fits frame types' ty :=
  (define h).bind fun _ _ _ hv => pure hv

theorem sliceData {v : IR.Value} {ty : IR.Ty} (h : v.HasType frame types (.slice ty)) :
    Types fits frame symbols types (Lower.define fun dest => .sliceData dest v) fun types' v =>
      v.HasType frame types' (.ptr ty) := by
  have hsuits : (IR.Instruction.sliceData types.length v).Suits fits frame (types ++ [.ptr ty]) :=
    ⟨⟨ty, h.mono (List.prefix_append _ _), List.getElem?_concat_length⟩, trivial, trivial⟩
  exact (define hsuits).imp fun _ _ _ hv => hv.hasType

theorem symbol (hrenders : Lowering.Renders symbols frame.module) {id : SymbolId} {symbol : Symbol}
    (span : Span) (hsymbol : symbols[id]? = some symbol) :
    Types fits frame symbols types (Lowering.symbol symbols id span) fun types' op =>
      op.Suits fits frame types' symbol.ty.shape := by
  refine (slotOf? id).bind fun types' slot _ hslot => ?_
  rw [SymbolTable.symbolAt_eq hsymbol] at hslot ⊢
  cases slot with
  | some slot => exact pure (IR.Value.HasType.register (hslot slot rfl))
  | none =>
    simp only
    split
    · rename_i hkind
      obtain ⟨_, _, hdeclares, hshape⟩ :=
        hrenders.shape_of_function (List.mem_of_getElem? hsymbol) hkind
      rw [hshape]
      exact pure (IR.Value.HasType.suits (.global hdeclares) (by simp))
    · exact refuse _ _

theorem shortCircuit {isAnd : Bool} {left right : Lower IR.Value}
    (hleft : ∀ types', types <+: types' →
      Types fits frame symbols types' left fun types v => v.Suits fits frame types .bool)
    (hright : ∀ types', types <+: types' →
      Types fits frame symbols types' right fun types v => v.Suits fits frame types .bool) :
    Types fits frame symbols types (Lowering.shortCircuit isAnd left right) fun types' op =>
      op.Suits fits frame types' .bool := by
  refine (reserve _).bind fun t1 slot h1 hslot => ?_
  refine (hleft t1 h1).bind fun t2 lhs h2 hlhs => ?_
  refine (storeSlot (IR.getElem?_mono h2 hslot) hlhs).bind fun t3 _ h3 _ => ?_
  refine (newBlock _).bind fun t4 rhsBlock h4 _ => ?_
  refine (newBlock _).bind fun t5 endBlock h5 _ => ?_
  have hbranch : ∀ a b, (IR.Terminator.branch lhs a b).Suits fits frame t5 := fun _ _ =>
    ⟨hlhs.hasType.mono (h3.trans (h4.trans h5)), trivial⟩
  refine (close (by cases isAnd <;> exact hbranch _ _)).bind fun t6 _ h6 _ => ?_
  refine (moveTo _).bind fun t7 _ h7 _ => ?_
  have hslot7 := IR.getElem?_mono
    (h2.trans (h3.trans (h4.trans (h5.trans (h6.trans h7))))) hslot
  refine (hright t7 ?_).bind fun t8 rhs h8 hrhs => ?_
  · exact h1.trans (h2.trans (h3.trans (h4.trans (h5.trans (h6.trans h7)))))
  have hslot8 := IR.getElem?_mono h8 hslot7
  refine (storeSlot hslot8 hrhs).bind fun t9 _ h9 _ => ?_
  refine (fallInto _).bind fun t10 _ h10 _ => ?_
  refine (moveTo _).bind fun t11 _ h11 _ => ?_
  have hslot11 := IR.getElem?_mono (h9.trans (h10.trans h11)) hslot8
  exact computed ⟨⟨.register (IR.getElem?_mono (List.prefix_append _ _) hslot11),
    List.getElem?_concat_length⟩, trivial, trivial⟩

variable {target : Typed.Expr} {lowered : Lower Operand}

section

variable (hrenders : Lowering.Renders symbols frame.module)
include hrenders

theorem elements {element : Ty} (helement : symbols.elementType? target.ty = some element)
    (h : Types fits frame symbols types lowered fun types' op =>
      op.Suits fits frame types' target.ty.shape) :
    Types fits frame symbols types (Lowering.elements target lowered) fun types' v =>
      v.HasType frame types' (.ptr element.shape) ∨
        ∃ size, v.HasType frame types' (.ptr (.array element.shape size)) := by
  unfold Lowering.elements
  generalize target.ty = ty at h helement ⊢
  cases ty with
  | array _ capacity _ =>
    cases helement
    refine h.bind fun types1 op _ hop => (address hop).imp fun types2 v _ hv => .inr ?_
    rw [hrenders.shape_expand]
    exact ⟨capacity, hv⟩
  | buffer _ _ =>
    cases helement
    refine h.bind fun types1 op _ hop => (load hop).imp fun types2 v _ hv => .inl ?_
    rw [hrenders.shape_expand]
    exact hv.hasType
  | slice _ _ =>
    cases helement
    refine h.bind fun types1 op _ hop => (load hop).bind fun types2 v _ hv => ?_
    refine (sliceData hv.hasType).imp fun types3 v _ hv => .inl ?_
    rw [hrenders.shape_expand]
    exact hv
  | string =>
    cases helement
    refine h.bind fun types1 op _ hop => (load hop).bind fun types2 v _ hv => ?_
    exact (sliceData hv.hasType).imp fun _ _ _ hv => .inl hv
  | _ => cases helement

theorem field {struct name : String}
    {typeParams : List TypeParam} {fields : List (String × Ty)} {place : Nat}
    (hstruct : target.ty = .struct struct typeParams fields)
    (hcanonical : symbols.structType? struct = some (.struct struct typeParams fields))
    (hfield : fields[place]? = some (name, ty))
    (h : Types fits frame symbols types lowered fun types' op =>
      op.Suits fits frame types' target.ty.shape) :
    Types fits frame symbols types (Lowering.field target lowered place) fun types' op =>
      op.Suits fits frame types' ty.shape := by
  obtain ⟨hexists, hall⟩ := hrenders.struct struct typeParams fields hcanonical
  unfold Lowering.field
  rw [hstruct] at h ⊢
  refine h.bind fun types1 op _ hop => (address hop).bind fun types2 base _ hbase => ?_
  have hsuits : (IR.Instruction.field types2.length base struct place).Suits fits frame
      (types2 ++ [.ptr ty.shape]) := by
    refine ⟨⟨hbase.mono (List.prefix_append _ _), hexists, fun s hs hname => ?_⟩, trivial, trivial⟩
    refine ⟨(name, ty.shape), ?_, List.getElem?_concat_length⟩
    rw [hall s hs hname, namedShapes, List.getElem?_map, hfield]
    rfl
  exact (define hsuits).bind fun _ _ _ hv => pure hv.hasType

theorem call {symbol : Symbol} {signature : Signature} (hsymbol : symbol ∈ symbols)
    (hsignature : symbol.signature? = some signature) {args : List Typed.Expr}
    (hmatch : Typed.Expr.Arguments signature args) {values : List IR.Value}
    (h : List.Forall₂ (fun v (arg : Typed.Expr) => v.Suits fits frame types arg.ty.shape)
      values args) :
    Types fits frame symbols types (Lowering.call symbol.name signature.returnType values)
      fun types' op => op.Suits fits frame types' signature.returnType.shape := by
  have hcallee := hrenders.callee symbol hsymbol signature hsignature
  have hdeclared : ∃ params ret, frame.module.Declares symbol.name params ret :=
    ⟨_, _, (hcallee _ _).mpr ⟨rfl, rfl⟩⟩
  have htyped : ∀ {types'}, types <+: types' → ∀ v ∈ values, ∃ ty, v.HasType frame types' ty := by
    intro types' hlonger v hv
    obtain ⟨i, hi, rfl⟩ := List.getElem_of_mem hv
    have hall := List.forall₂_iff_get.mp h
    exact ⟨_, (hall.2 i hi (hall.1 ▸ hi)).hasType.mono hlonger⟩
  have hleading : List.Forall₂ (IR.Value.Suits fits frame types)
      (values.take (Ty.paramShapes signature.params).length) (Ty.paramShapes signature.params) := by
    have hshapes : Ty.paramShapes signature.params =
        (args.take signature.params.length).map fun arg => arg.ty.shape := by
      rw [Ty.paramShapes_eq]
      have := congrArg (List.map Ty.shape) hmatch.leading
      simpa [Signature.paramTypes, List.map_take, Function.comp_def] using this.symm
    rw [hshapes, List.forall₂_map_right_iff]
    have hlength : ((args.take signature.params.length).map fun arg => arg.ty.shape).length =
        signature.params.length := by
      rw [← hshapes, Ty.paramShapes_eq, List.length_map]
    rw [hlength]
    exact List.forall₂_take _ h
  have hconstants : ∀ dest types', (IR.Instruction.call dest symbol.name values).ConstantsFit fits
      frame types' := by
    intro dest types' params ret hdeclares
    obtain ⟨rfl, rfl⟩ := (hcallee params ret).mp hdeclares
    exact hleading.imp fun _ _ hv => hv.fits
  unfold Lowering.call
  split
  · rename_i hvoid
    have hvoid := Ty.eq_void_of_isVoid hvoid
    have hwell : (IR.Instruction.call none symbol.name values).WellTyped frame types := by
      refine ⟨htyped List.prefix_rfl, hdeclared, fun params ret hdeclares => ?_⟩
      obtain ⟨rfl, rfl⟩ := (hcallee params ret).mp hdeclares
      exact ⟨hleading.imp fun _ _ hv => hv.hasType, .inl ⟨rfl, by rw [hvoid, Ty.shape]⟩⟩
    refine (emit ⟨hwell, hconstants _ _, trivial⟩).bind fun _ _ _ _ => pure ?_
    rw [hvoid, Ty.shape]
    exact IR.Value.HasType.suits .unit (by simp)
  · refine computed ⟨⟨htyped (List.prefix_append _ _), hdeclared, fun params ret hdeclares => ?_⟩,
      hconstants _ _, trivial⟩
    obtain ⟨rfl, rfl⟩ := (hcallee params ret).mp hdeclares
    exact ⟨hleading.imp fun _ _ hv => hv.hasType.mono (List.prefix_append _ _),
      .inr ⟨_, rfl, List.getElem?_concat_length⟩⟩

end

end Lower.Types

/-! ### Expressions -/

namespace Typed.Expr

open Lower (Types)

variable {fits : Int → IR.Ty → Prop} {frame : Frame} {symbols : SymbolTable} {known : List SymbolId}

/-- If the expression is an integer literal, it fits the machine's type for its own. -/
def LiteralIn (fits : Int → IR.Ty → Prop) : Expr → Prop
  | .integer ty _ magnitude negative => fits (Lowering.signed magnitude negative) ty.shape
  | _ => True

/-- All integer literals in the expression fit. -/
def LiteralsFit (fits : Int → IR.Ty → Prop) (e : Expr) : Prop := ∀ n ∈ e.nodes, n.LiteralIn fits

namespace LiteralsFit

variable {e inner : Expr}

theorem self (h : e.LiteralsFit fits) : e.LiteralIn fits := h e (mem_nodes.mpr (.inl rfl))

theorem inside (h : e.LiteralsFit fits) (hinner : inner.nodes ⊆ e.nodes.tail) :
    inner.LiteralsFit fits :=
  fun n hn => h n (mem_nodes.mpr (.inr (hinner hn)))

end LiteralsFit

theorem types_lowerAll {args : List Expr}
    (h : ∀ arg ∈ args, ∀ types, Types fits frame symbols types (arg.lower symbols) fun types' op =>
      op.Suits fits frame types' arg.ty.shape) (types : List IR.Ty) :
    Types fits frame symbols types (lowerAll symbols args) fun types' values =>
      List.Forall₂ (fun v (arg : Expr) => v.Suits fits frame types' arg.ty.shape) values args := by
  induction args generalizing types with
  | nil =>
    exact .pure .nil
  | cons arg _ ih =>
    refine (h arg (by simp) types).bind fun types1 op _ hop => ?_
    refine (Types.load hop).bind fun types2 v _ hv => ?_
    refine (ih (fun a ha => h a (by simp [ha])) types2).bind fun types3 values hlonger hvalues => ?_
    exact .pure (.cons (hv.mono hlonger) hvalues)

theorem shape_resultType {op : BinaryOp} (h : ¬op.isLogical = true) {ty : Ty} :
    (op.resultType ty).shape = op.operation.resultType ty.shape := by
  cases op with
  | logicalAnd | logicalOr => exact absurd rfl h
  | _ =>
    simp [BinaryOp.resultType, IR.BinaryOp.resultType, BinaryOp.operation, BinaryOp.isLogical,
      BinaryOp.isComparison, IR.BinaryOp.isComparison, Ty.shape]

theorem isReference_of_accepts {op : UnaryOp} {ty : Ty} (h : op.Accepts ty) :
    ty.shape.isReference = false := by
  cases op with
  | not =>
    rw [show ty = .bool from h, Ty.shape]
    rfl
  | bitNot =>
    obtain ⟨_, _, hshape⟩ := Ty.shape_of_isInteger h
    rw [hshape]
    rfl
  | neg =>
    rcases h with rfl | ⟨bits, rfl⟩ | rfl | ⟨_, rfl⟩ <;> rw [Ty.shape]
    · rfl
    · rfl
    · rfl
    · split <;> rfl

variable {types : List IR.Ty} {e : Expr}

theorem types_lower_integer {ty : Ty} {span : Span} {magnitude : Nat} {negative signed : Bool}
    {width : IR.Width} (hty : ty.shape = .int signed width)
    (h : (Expr.integer ty span magnitude negative).LiteralIn fits) :
    Types fits frame symbols types ((Expr.integer ty span magnitude negative).lower symbols)
      fun types' op => op.Suits fits frame types' ty.shape := by
  refine .pure ⟨hty ▸ IR.Value.HasType.int _ _ _, ?_⟩
  rintro _ ⟨⟩
  exact h

theorem types_lower_mixed {op : BinaryOp} {left right : Expr} (span : Span)
    (hmixed : MixedLiterals left right) (hlogical : ¬op.isLogical = true)
    (hleft : left.LiteralIn fits) (hright : right.LiteralIn fits) :
    Types fits frame symbols types
      ((Expr.binary (op.resultType left.ty) span op left right).lower symbols)
      fun types' operand => operand.Suits fits frame types' (op.resultType left.ty).shape := by
  obtain ⟨signed, _, _, _, _, _, _⟩ := hmixed
  have hshape : ∀ signed, (Ty.int signed).shape = .int signed .w64 := fun _ => by rw [Ty.shape]
  rw [shape_resultType hlogical]
  simp only [hlogical, lower, Lowering.constant, Operand.load, pure_bind, Expr.ty, hshape]
  refine .computed ⟨⟨.int _ _ _, .int _ _ _, List.getElem?_concat_length⟩, ⟨?_, .inr ?_⟩, trivial⟩
  · rintro _ ⟨⟩
    exact hleft
  · exact ⟨_, _, signed, rfl, rfl, rfl, hright⟩

section

variable (hrenders : Lowering.Renders symbols frame.module) (hsymbols : symbols.Canonical)
  (h : e.WellTyped symbols) (hreads : e.Reads symbols known) (hliterals : e.LiteralsFit fits)
include hrenders hsymbols h hreads hliterals

/-- The code of a well-typed expression is well typed, and leaves an operand of the machine's type
for the expression's. If the literals in the expression fit, so do the constants in the code. -/
theorem types_lower (types : List IR.Ty) :
    Types fits frame symbols types (e.lower symbols) fun types' op =>
      op.Suits fits frame types' e.ty.shape := by
  induction h generalizing types with
  | integer _ _ _ hty =>
    obtain ⟨_, _, hshape⟩ := Ty.shape_of_isInteger hty
    exact types_lower_integer hshape hliterals.self
  | variant _ _ _ => exact types_lower_integer (by rw [Ty.shape]) hliterals.self
  | float _ _ hty =>
    refine .pure (IR.Value.HasType.suits (.float _ ?_) (by simp))
    rcases hty with rfl | ⟨_, rfl⟩
    · simp [Expr.ty, Ty.shape, IR.Ty.isFloat]
    · simp only [Expr.ty, Ty.shape]
      split <;> rfl
  | bool _ _ => exact .pure (IR.Value.HasType.suits (.bool _) (by simp))
  | string _ _ hty =>
    rcases hty with rfl | rfl
    · simp only [Expr.ty, Ty.shape]
      exact .pure (IR.Value.HasType.suits (.string _) (by simp))
    · simp only [Expr.ty, Ty.cString, Ty.bufferOf, Ty.shape, Ty.shape_indirect, Ty.u8,
        Ty.machineWidth]
      exact .pure (IR.Value.HasType.suits (.bytes _) (by simp))
  | load span hsymbol _ => exact .symbol hrenders span hsymbol
  | cast _ _ _ _ ih =>
    refine (ih hreads.2 (hliterals.inside fun _ => id) types).bind
      fun _ op _ hop => (Types.load hop).bind fun _ v _ hv => ?_
    exact .computed ⟨⟨hv.hasType.mono (List.prefix_append _ _), List.getElem?_concat_length⟩,
      hv.fits, trivial⟩
  | @materialize access _ _ _ hslice ih =>
    refine (ih hreads (hliterals.inside fun _ => id) types).bind
      fun _ op _ hop => (Types.load hop).bind fun _ v _ hv => ?_
    have hshape : (Ty.slice .u8 access).shape = Ty.string.shape := by
      simp [Ty.shape, Ty.u8, Ty.machineWidth]
    rw [hslice, hshape] at hv
    exact .computed ⟨⟨hv.hasType.mono (List.prefix_append _ _), List.getElem?_concat_length⟩,
      trivial, trivial⟩
  | @invoke _ _ _ args _ hsymbol hsignature _ hmatch ih =>
    have hargs : ∀ arg ∈ args, arg.LiteralsFit fits := fun arg harg =>
      hliterals.inside fun n hn => mem_nodesAll.mpr ⟨arg, harg, hn⟩
    refine (types_lowerAll (fun arg harg => ih arg harg (hreads.of_mem harg) (hargs arg harg))
      types).bind fun types1 values _ hvalues => ?_
    rw [SymbolTable.symbolAt_eq hsymbol]
    exact .call hrenders (List.mem_of_getElem? hsymbol) hsignature hmatch hvalues
  | @unary op operand _ _ haccepts ih =>
    refine (ih hreads (hliterals.inside fun _ => id) types).bind
      fun _ _ _ hop => (Types.load hop).bind fun types' v _ hv => ?_
    have hdest : (types' ++ [operand.ty.shape])[types'.length]? = some operand.ty.shape :=
      List.getElem?_concat_length
    refine .computed ⟨⟨_, hv.hasType.mono (List.prefix_append _ _), hdest, ?_⟩, trivial, ?_⟩
    · intro hnot
      cases op with
      | not =>
        have hbool : operand.ty = .bool := haccepts
        rw [hbool, Ty.shape]
      | _ => cases hnot
    · intro ty hty
      cases hdest.symm.trans hty
      exact isReference_of_accepts haccepts
  | @binary op left right span _ _ hsame haccepts ihleft ihright =>
    have hliteralsLeft := hliterals.inside (List.subset_append_left left.nodes right.nodes)
    have hliteralsRight := hliterals.inside (List.subset_append_right left.nodes right.nodes)
    rcases hsame with hty | ⟨hlogical, hmixed⟩
    rotate_left
    · exact types_lower_mixed span hmixed (by simp [hlogical]) hliteralsLeft.self
        hliteralsRight.self
    have hl := fun types => (ihleft hreads.1 hliteralsLeft types).loaded
    have hr := fun types => (ihright hreads.2 hliteralsRight types).loaded
    unfold lower
    rw [← hty] at hr ⊢
    split
    · rename_i hlogical
      have hbool : left.ty.shape = .bool := by
        cases op with
        | logicalAnd | logicalOr => rw [show left.ty = .bool from haccepts, Ty.shape]
        | _ => cases hlogical
      have hshape : (BinaryOp.resultType op left.ty).shape = .bool := by
        simp [BinaryOp.resultType, hlogical, Ty.shape]
      rw [Expr.ty, hshape]
      rw [hbool] at hl hr
      exact .shortCircuit (fun types _ => hl types) fun types _ => hr types
    · rename_i hlogical
      rw [← bind_assoc]
      refine (hl types).bind fun types1 lhs _ hlhs => ?_
      rw [← bind_assoc]
      refine (hr types1).bind fun types2 rhs hlonger hrhs => ?_
      rw [Expr.ty, shape_resultType hlogical]
      have hlhs := hlhs.mono hlonger
      exact .computed ⟨⟨hlhs.hasType.mono (List.prefix_append _ _),
        hrhs.hasType.mono (List.prefix_append _ _), List.getElem?_concat_length⟩,
        ⟨hlhs.fits, .inl hrhs.fits⟩, trivial⟩
  | addressOf _ _ _ ih =>
    refine (ih hreads (hliterals.inside fun _ => id) types).bind
      fun _ op _ hop => (Types.address hop).bind fun _ v _ hv => ?_
    simp only [Expr.ty, Ty.pointerTo, Ty.shape, Ty.shape_indirect]
    exact .pure ⟨hv, hv.fits_of_ne_int (by simp)⟩
  | dereference _ _ hpointer ih =>
    refine (ih hreads (hliterals.inside fun _ => id) types).bind
      fun _ op _ hop => (Types.load hop).bind fun _ v _ hv => ?_
    rw [hpointer, Ty.shape] at hv
    simp only [Expr.ty, hrenders.shape_expand]
    exact .pure hv.hasType
  | @index element target i _ _ _ helement hinteger ihtarget ihi =>
    have hliteralsTarget := hliterals.inside (List.subset_append_left target.nodes i.nodes)
    have hliteralsIndex := hliterals.inside (List.subset_append_right target.nodes i.nodes)
    refine (Types.elements hrenders helement (ihtarget hreads.1 hliteralsTarget types)).bind
      fun types1 base _ hbase => ?_
    refine (ihi hreads.2 hliteralsIndex types1).loaded.bind fun types2 i' hlonger hi' => ?_
    have hsuits : (IR.Instruction.element types2.length base i' element.shape).Suits fits frame
        (types2 ++ [.ptr element.shape]) := by
      have hlonger' := hlonger.trans (List.prefix_append types2 [.ptr element.shape])
      refine ⟨⟨?_, ?_, List.getElem?_concat_length⟩, trivial, trivial⟩
      · rcases hbase with hbase | ⟨size, hbase⟩
        · exact .inl (hbase.mono hlonger')
        · exact .inr ⟨size, hbase.mono hlonger'⟩
      · obtain ⟨signed, width, hshape⟩ := Ty.shape_of_isInteger hinteger
        rw [hshape] at hi'
        exact ⟨signed, width, hi'.hasType.mono (List.prefix_append _ _)⟩
    exact (Types.define hsuits).bind fun _ _ _ hv => .pure hv.hasType
  | field _ htarget hstruct hfield _ ih =>
    have hcanonical := htarget.canonical hsymbols hreads
    rw [hstruct] at hcanonical
    exact .field hrenders hstruct hcanonical.of_struct.1 hfield
      (ih hreads (hliterals.inside fun _ => id) types)

/-- The code of an expression computes a value with the shape of its type. -/
theorem types_lowerValue (types : List IR.Ty) :
    Types fits frame symbols types (e.lowerValue symbols) fun types' v =>
      v.Suits fits frame types' e.ty.shape :=
  (types_lower hrenders hsymbols h hreads hliterals types).loaded

theorem types_condition (hbool : e.ty = .bool) (types : List IR.Ty) :
    Types fits frame symbols types (e.lowerValue symbols) fun types' v =>
      v.Suits fits frame types' .bool := by
  have hvalue := types_lowerValue hrenders hsymbols h hreads hliterals types
  rwa [hbool, Ty.shape] at hvalue

theorem types_lowerAddress (types : List IR.Ty) :
    Types fits frame symbols types (e.lowerAddress symbols) fun types' v =>
      v.HasType frame types' (.ptr e.ty.shape) :=
  (types_lower hrenders hsymbols h hreads hliterals types).bind fun _ _ _ hop => .address hop

end

end Typed.Expr

/-! ### Statements -/

namespace Lower.Types

variable {fits : Int → IR.Ty → Prop} {frame : Frame} {symbols : SymbolTable} {types : List IR.Ty}
  {condition : Lower IR.Value}
  {thenBody elseBody : Lower Unit}

theorem branch {c : IR.Value} {thenTarget elseTarget : IR.BlockId}
    (h : c.HasType frame types .bool) :
    Types fits frame symbols types (Lower.close (.branch c thenTarget elseTarget))
      fun _ _ => True :=
  close ⟨h, trivial⟩

theorem ifThen
    (hcondition : Types fits frame symbols types condition
      fun types' v => v.Suits fits frame types' .bool)
    (hthen : ∀ types, Types fits frame symbols types thenBody fun _ _ => True) :
    Types fits frame symbols types (Lowering.ifThen condition thenBody) fun _ _ => True := by
  refine hcondition.bind fun t1 c _ hc => ?_
  refine (newBlock _).bind fun t2 _ h2 _ => (newBlock _).bind fun t3 _ h3 _ => ?_
  refine (branch (hc.hasType.mono (h2.trans h3))).bind fun t4 _ _ _ => ?_
  exact (moveTo _).bind fun t5 _ _ _ => (hthen t5).bind fun _ _ _ _ =>
    (fallInto _).bind fun _ _ _ _ => moveTo _

theorem join (thenExit elseExit : IR.BlockId) :
    Types fits frame symbols types (Lowering.join thenExit elseExit) fun _ _ => True := by
  refine (isClosed _).bind fun _ a _ _ => (isClosed _).bind fun _ b _ _ => ?_
  split
  · exact pure trivial
  · exact (newBlock _).bind fun _ _ _ _ => (fallFrom _ _).bind fun _ _ _ _ =>
      (fallFrom _ _).bind fun _ _ _ _ => moveTo _

theorem ifThenElse
    (hcondition : Types fits frame symbols types condition
      fun types' v => v.Suits fits frame types' .bool)
    (hthen : ∀ types, Types fits frame symbols types thenBody fun _ _ => True)
    (helse : ∀ types, Types fits frame symbols types elseBody fun _ _ => True) :
    Types fits frame symbols types (Lowering.ifThenElse condition thenBody elseBody)
      fun _ _ => True := by
  refine hcondition.bind fun t1 c _ hc => ?_
  refine (newBlock _).bind fun t2 _ h2 _ => (newBlock _).bind fun t3 _ h3 _ => ?_
  refine (branch (hc.hasType.mono (h2.trans h3))).bind fun t4 _ _ _ => ?_
  refine (moveTo _).bind fun t5 _ _ _ => (hthen t5).bind fun _ _ _ _ => ?_
  refine currentBlock.bind fun _ _ _ _ => (moveTo _).bind fun t6 _ _ _ => ?_
  exact (helse t6).bind fun _ _ _ _ => currentBlock.bind fun _ _ _ _ => join _ _

theorem loop {body : LoopTargets → Lower Unit}
    (hcondition : ∀ types, Types fits frame symbols types condition fun types' v =>
      v.Suits fits frame types' .bool)
    (hbody : ∀ targets types, Types fits frame symbols types (body targets) fun _ _ => True) :
    Types fits frame symbols types (Lowering.loop condition body) fun _ _ => True := by
  refine (newBlock _).bind fun _ _ _ _ => (newBlock _).bind fun _ _ _ _ => ?_
  refine (newBlock _).bind fun _ _ _ _ => (fallInto _).bind fun _ _ _ _ => ?_
  refine (moveTo _).bind fun t1 _ _ _ => (hcondition t1).bind fun t2 c _ hc => ?_
  refine (branch hc.hasType).bind fun _ _ _ _ => (moveTo _).bind fun t3 _ _ _ => ?_
  exact (hbody _ t3).bind fun _ _ _ _ => (fallInto _).bind fun _ _ _ _ => moveTo _

theorem loopJump (loop : Option LoopTargets) (target : LoopTargets → IR.BlockId) (span : Span) :
    Types fits frame symbols types (Lowering.loopJump loop target span) fun _ _ => True := by
  cases loop with
  | none => exact refuse _ _
  | some _ => exact close ⟨trivial, trivial⟩

variable {value : Option Typed.Expr}

theorem optionalValue (ty : Ty)
    (h : ∀ e ∈ value, Types fits frame symbols types (e.lowerValue symbols) fun types' v =>
      v.Suits fits frame types' ty.shape) :
    Types fits frame symbols types (Lowering.optionalValue symbols value) fun types' result =>
      (value = none ↔ result = none) ∧ ∀ v ∈ result, v.Suits fits frame types' ty.shape := by
  cases value with
  | none => exact pure ⟨by simp, by simp⟩
  | some e =>
    refine (h e rfl).bind fun _ v _ hv => pure ⟨by simp, ?_⟩
    rintro _ ⟨⟩
    exact hv

theorem binding {id : SymbolId}
    (h : ∀ e ∈ value, ∀ types, Types fits frame symbols types (e.lowerValue symbols) fun types' v =>
      v.Suits fits frame types' (symbols.symbolAt id).ty.shape) :
    Types fits frame symbols types (Lowering.binding symbols id value) fun _ _ => True := by
  refine (reserve _).bind fun t1 slot _ hslot => ?_
  refine (optionalValue _ fun e he => h e he t1).bind fun t2 v h2 hv => ?_
  have hslot2 := IR.getElem?_mono h2 hslot
  cases v with
  | none => exact bindSlot hslot2
  | some v =>
    exact (storeSlot hslot2 (hv.2 v rfl)).bind fun _ _ h3 _ =>
      bindSlot (IR.getElem?_mono h3 hslot2)

end Lower.Types

namespace Typed.Stmt

open Lower (Types)

variable {fits : Int → IR.Ty → Prop} {frame : Frame} {symbols : SymbolTable} {returnType : Ty}

/-- All integer literals in the statement fit, those of the statements in it included. -/
def LiteralsFit (fits : Int → IR.Ty → Prop) (s : Stmt) : Prop :=
  ∀ s' ∈ s.nodes, ∀ e ∈ s'.operands, e.LiteralsFit fits

namespace LiteralsFit

variable {s inner : Stmt} {e : Expr}

theorem operand (h : s.LiteralsFit fits) (he : e ∈ s.operands) : e.LiteralsFit fits :=
  h s (mem_nodes.mpr (.inl rfl)) e he

theorem inside (h : s.LiteralsFit fits) (hinner : inner.nodes ⊆ s.nodes.tail) :
    inner.LiteralsFit fits :=
  fun s' hs' => h s' (mem_nodes.mpr (Or.inr (hinner hs')))

end LiteralsFit

mutual

/-- The code of a well-typed statement is well typed, with constants that fit if its literals do. -/
theorem types_lower (hrenders : Lowering.Renders symbols frame.module)
    (hsymbols : symbols.Canonical)
    (hret : frame.ret = returnType.shape) : (stmt : Stmt) → {inLoop : Bool} →
    {known : List SymbolId} → {loop : Option LoopTargets} →
    stmt.WellTyped symbols returnType inLoop → stmt.WellScoped symbols known →
    stmt.LiteralsFit fits →
    ∀ types, Types fits frame symbols types (stmt.lower symbols loop) fun _ _ => True
  | .block stmts _, _, _, _, .block _ hstmts, hscoped, hliterals, types => by
    refine types_lowerBlock hrenders hsymbols hret stmts hstmts hscoped (fun stmt hstmt => ?_) types
    exact hliterals.inside fun s hs => mem_nodesAll.mpr ⟨stmt, hstmt, hs⟩
  | .binding id value _, _, _, _, .binding _ hsymbol _ _ hvalue, hscoped, hliterals, types => by
    refine .binding fun e he types => ?_
    obtain ⟨hwell, hty⟩ := hvalue e he
    rw [SymbolTable.symbolAt_eq hsymbol, ← hty]
    exact Expr.types_lowerValue hrenders hsymbols hwell (hscoped e he)
      (hliterals.operand (Option.mem_toList.mpr he)) types
  | .expression value, _, _, _, .expression hvalue, hscoped, hliterals, types => by
    refine (Expr.types_lowerValue hrenders hsymbols hvalue hscoped ?_ types).bind fun _ _ _ _ =>
      .pure trivial
    exact hliterals.operand (List.mem_singleton.mpr rfl)
  | .ret value _, _, _, _, .ret _ hvalue, hscoped, hliterals, types => by
    refine (Types.optionalValue returnType fun e he => ?_).bind fun t1 v _ hv => .close ?_
    · have hvalues := hliterals.operand (Option.mem_toList.mpr he)
      cases he
      obtain ⟨-, hwell, hty⟩ := hvalue
      rw [← hty]
      exact Expr.types_lowerValue hrenders hsymbols hwell (hscoped e rfl) hvalues types
    · cases v with
      | none =>
        rw [hv.1.mpr rfl] at hvalue
        have hvoid : returnType = .void := hvalue
        refine ⟨?_, trivial⟩
        rw [IR.Terminator.WellTyped, hret, hvoid, Ty.shape]
      | some v =>
        have hv := hv.2 v rfl
        rw [← hret] at hv
        exact ⟨hv.hasType, hv.fits⟩
  | .assign target value _, _, _, _, .assign _ htarget _ _ hvalue hsame, hscoped, hliterals,
      types => by
    refine (Expr.types_lowerAddress hrenders hsymbols htarget hscoped.1
      (hliterals.operand List.mem_cons_self) types).bind fun t1 ptr _ hptr => ?_
    refine (Expr.types_lowerValue hrenders hsymbols hvalue hscoped.2
      (hliterals.operand (List.mem_cons_of_mem _ List.mem_cons_self)) t1).bind fun t2 v h2 hv => ?_
    rw [hsame] at hv
    exact .emit (IR.Instruction.suits_store (hptr.mono h2) hv)
  | .conditional condition thenBody none _, _, _, loop,
      .conditional _ hcondition hbool hthen _, hscoped, hliterals, types => by
    have hc := Expr.types_condition hrenders hsymbols hcondition hscoped.1
      (hliterals.operand List.mem_cons_self) hbool
    exact .ifThen (hc types)
      fun types => types_lower hrenders hsymbols hret thenBody hthen hscoped.2
      (hliterals.inside fun _ => id) types
  | .conditional condition thenBody (some elseBody) _, _, _, loop,
      .conditional _ hcondition hbool hthen helse, hscoped, hliterals, types => by
    have hc := Expr.types_condition hrenders hsymbols hcondition hscoped.1
      (hliterals.operand List.mem_cons_self) hbool
    refine .ifThenElse (hc types)
      (fun types => types_lower hrenders hsymbols hret thenBody hthen hscoped.2.1 ?_ types)
      fun types =>
        types_lower hrenders hsymbols hret elseBody (helse elseBody rfl) hscoped.2.2 ?_ types
    · exact hliterals.inside (List.subset_append_left thenBody.nodes elseBody.nodes)
    · exact hliterals.inside (List.subset_append_right thenBody.nodes elseBody.nodes)
  | .whileLoop condition body none _, _, _, _, .whileLoop _ hcondition hbool hbody _, hscoped,
      hliterals, types => by
    have hc := Expr.types_condition hrenders hsymbols hcondition hscoped.1
      (hliterals.operand List.mem_cons_self) hbool
    exact .loop hc fun _ types => types_lower hrenders hsymbols hret body hbody hscoped.2
      (hliterals.inside fun _ => id) types
  | .whileLoop _ _ (some _) _, _, _, _, _, _, _, _ => .refuse _ _
  | .breakLoop _, _, _, _, _, _, _, _ | .continueLoop _, _, _, _, _, _, _, _ => .loopJump _ _ _
  | .yield _ _, _, _, _, _, _, _, _ => .refuse _ _
  | .deadCode _ _, _, _, _, _, _, _, _ => .pure trivial

/-- The code of well-typed statements is well typed. -/
theorem types_lowerBlock (hrenders : Lowering.Renders symbols frame.module)
    (hsymbols : symbols.Canonical) (hret : frame.ret = returnType.shape) : (stmts : List Stmt) →
    {inLoop : Bool} → {known : List SymbolId} → {loop : Option LoopTargets} →
    (∀ stmt ∈ stmts, stmt.WellTyped symbols returnType inLoop) →
    WellScopedAll symbols known stmts → (∀ stmt ∈ stmts, stmt.LiteralsFit fits) →
    ∀ types, Types fits frame symbols types (lowerBlock symbols loop stmts) fun _ _ => True
  | [], _, _, _, _, _, _, _ => by
    exact .pure trivial
  | stmt :: rest, _, _, _, hwell, hscoped, hliterals, _ => by
    obtain ⟨hstmt, hrest, -⟩ := wellScopedAll_cons.mp hscoped
    refine Types.currentBlock.bind fun _ _ _ _ => (Types.isClosed _).bind fun t1 closed _ _ => ?_
    cases closed with
    | true => exact .pure trivial
    | false =>
      refine (types_lower hrenders hsymbols hret stmt (hwell stmt (by simp)) hstmt
        (hliterals stmt (by simp)) t1).bind fun t2 _ _ _ => ?_
      exact types_lowerBlock hrenders hsymbols hret rest (fun s hs => hwell s (by simp [hs])) hrest
        (fun s hs => hliterals s (by simp [hs])) t2

end

end Typed.Stmt

end Laye
