import Laye.Proofs.Interchange.Decoding
import Laye.Proofs.Lowering.ModuleTyping
import Laye.Proofs.Lowering.WellFormed
import Laye.Proofs.Regular.Program

/-!
# The constants of lowered code are in range

A literal is checked against the range of its type when it gets the type, and lowering makes a
constant of it. `accepted_literalIn` says that what was checked is the range of the machine's type,
and `accepted_lower_constantsFit` that the constants of a module are in the range of the types that
the code takes them as.

Two literals without a type of their own are not brought to one type if one is signed and the other
is not. So an operation on two constants may take the second one as an integer of the wrong
signedness: `accepted_lower_surplus` is a program in which it is out of range.

The value of a variant is a constant too. Variants that are numbered by their places are in range,
and those that are written down have to be (`TopLevel.VariantsFit`). In trees that are read from
texts they are: see `SyntaxTree.variantsFit_of_parse`. -/

namespace Laye

/-! ### Literals -/

variable {magnitude bits : Nat} {negative signed keepGoing : Bool} {trees : List SyntaxTree}

theorem literalProblem?_eq_none {ty : Ty} (hty : ty.integerInfo? = some (signed, bits))
    (h : literalProblem? magnitude negative ty = none) :
    (negative = true → signed = false → magnitude = 0) ∧
      magnitude ≤ literalLimit signed bits negative := by
  unfold literalProblem? at h
  rw [hty] at h
  simp only at h
  split at h
  · cases h
  · rename_i hsign
    split at h
    · rename_i hle
      refine ⟨fun hnegative hsigned => ?_, hle⟩
      simpa [hnegative, hsigned] using hsign
    · cases h

theorem inRange_of_le_limit {width : IR.Width}
    (hsign : negative = true → signed = false → magnitude = 0)
    (h : magnitude ≤ literalLimit signed width.bits negative) :
    IR.InRange (Lowering.signed magnitude negative) (.int signed width) := by
  cases width <;> cases signed <;> cases negative <;>
    simp [literalLimit, IR.Width.bits, IR.InRange, Lowering.signed] at h hsign ⊢ <;> omega

theorem Ty.bits_machineWidth (h : bits ∈ Builtin.integerWidths) :
    (machineWidth bits).bits = bits := by
  simp only [Builtin.integerWidths, List.mem_cons, List.not_mem_nil, or_false] at h
  rcases h with rfl | rfl | rfl | rfl <;> rfl

theorem inRange_of_literalProblem? {symbols : SymbolTable} {ty : Ty}
    (hnormal : ty.Normal symbols false) (hty : ty.isInteger = true)
    (h : literalProblem? magnitude negative ty = none) :
    IR.InRange (Lowering.signed magnitude negative) ty.shape := by
  cases ty with
  | int _ =>
    obtain ⟨hsign, hle⟩ := literalProblem?_eq_none rfl h
    exact inRange_of_le_limit hsign hle
  | sizedInt _ _ =>
    obtain ⟨hsign, hle⟩ := literalProblem?_eq_none rfl h
    cases hnormal with
    | keyword hwidth =>
      rw [← Ty.bits_machineWidth (of_decide_eq_true hwidth)] at hle
      exact inRange_of_le_limit hsign hle
  | _ => cases hty

/-! ### Variants -/

namespace Declarations

theorem le_of_variantValues {enum : String} {variants : List EnumVariant} {next : Option Nat}
    {done result : List (String × Nat)}
    (hwritten : ∀ variant ∈ variants, ∀ value ∈ variant.value, value ≤ maxVariant)
    (hnext : ∀ value ∈ next, value ≤ maxVariant) (hdone : ∀ variant ∈ done, variant.2 ≤ maxVariant)
    (h : variantValues enum variants next done = .ok result) :
    ∀ variant ∈ result, variant.2 ≤ maxVariant := by
  induction variants generalizing next done with
  | nil =>
    cases h
    exact hdone
  | cons _ _ ih =>
    obtain ⟨hfirst, hwritten⟩ := List.forall_mem_cons.mp hwritten
    unfold variantValues at h
    split at h
    · cases h
    split at h
    · cases h
    rename_i value hvalue
    have hle : value ≤ maxVariant := by
      rcases Option.or_eq_some_iff.mp hvalue with hvalue | ⟨-, hvalue⟩
      · exact hfirst value hvalue
      · exact hnext value hvalue
    refine ih hwritten (fun after hafter => ?_) ?_ h
    · split at hafter
      · rename_i hlt
        cases hafter
        exact hlt
      · cases hafter
    · exact List.forall_mem_append.mpr ⟨hdone, by simpa using hle⟩

end Declarations

theorem accepted_variants {p : Typed.Program} (h : (checkProgram keepGoing trees).program = some p)
    (htrees : ∀ tree ∈ trees, ∀ decl ∈ tree.decls, decl.VariantsFit) {symbol : Symbol}
    (hmem : symbol ∈ p.symbols) (hkind : symbol.kind = .enum) {name : String}
    {variants : List (String × Nat)} (hty : symbol.ty = .enum name variants) :
    ∀ variant ∈ variants, variant.2 ≤ Declarations.maxVariant := by
  obtain ⟨i, top, htop, -, his⟩ := (accepted_places h).top_of_symbol hmem (by simp [hkind])
  obtain ⟨tree, htree, hdecl⟩ := List.mem_flatMap.mp (List.mem_of_getElem? htop)
  have hfits := htrees tree htree top hdecl
  cases top with
  | enum _ =>
    obtain ⟨_, hvalues, heq⟩ := Typing.bind_eq_ok.mp his.type
    rw [hty] at heq
    cases heq
    exact Declarations.le_of_variantValues hfits (by simp) (by simp) hvalues
  | _ =>
    rw [his.kind_eq] at hkind
    cases hkind

/-! ### Programs -/

theorem accepted_literalIn {p : Typed.Program} (h : (checkProgram keepGoing trees).program = some p)
    (htrees : ∀ tree ∈ trees, ∀ decl ∈ tree.decls, decl.VariantsFit) {f : Typed.Function}
    (hf : .function f ∈ p.decls) {e : Typed.Expr} (he : e ∈ f.body.exprs) :
    e.LiteralIn IR.InRange := by
  obtain ⟨_, hwell⟩ := (accepted_wellTyped h).2 f hf
  obtain ⟨hnormal, hfits⟩ := (accepted_regular h).2 f hf e he
  cases hwell.body.of_mem_exprs he with
  | integer _ _ _ hty => exact inRange_of_literalProblem? hnormal hty hfits
  | @variant enum name variants value _ _ hvalue =>
    cases hnormal with
    | keyword hty => cases hty
    | enum hname =>
      obtain ⟨symbol, hmem, hkind, hsymbol⟩ := hname.found
      have hvariant : (name, value) ∈ variants := by
        obtain ⟨_, _, rfl, -⟩ := List.lookup_eq_some_iff.mp hvalue
        exact List.mem_append_right _ List.mem_cons_self
      have hle := accepted_variants h htrees hmem hkind (hname.type_eq symbol hmem hkind hsymbol)
        (name, value) hvariant
      show IR.InRange (Lowering.signed value false) (Ty.enum enum variants).shape
      -- The largest value of a variant is the largest literal of 64 bits.
      exact inRange_of_le_limit nofun hle
  | _ => trivial

/-- The integer constants in the module of an accepted program are in the range of the types that
the code takes them as: the type of an operation, of what a pointer points to, of a parameter, of
the result and of what is cast, for all types of the registers that the code is well typed with.
Only the second one of two constants may be in the range of the other 64-bit integers instead. -/
theorem accepted_lower_constantsFit {keepGoing : Bool} {trees : List SyntaxTree} {p : Typed.Program}
    {name : String} {m : IR.Module} (hcheck : (checkProgram keepGoing trees).program = some p)
    (hlower : p.lower name = .ok m)
    (htrees : ∀ tree ∈ trees, ∀ decl ∈ tree.decls, decl.VariantsFit) :
    ∀ g ∈ m.functions, g.WellTyped m ∧
      ∀ types, (∀ block ∈ g.blocks, block.WellTyped ⟨m, g.params, g.ret⟩ types) →
        ∀ block ∈ g.blocks, block.ConstantsFit IR.InRange ⟨m, g.params, g.ret⟩ types := by
  intro g hg
  obtain ⟨types, hsuits⟩ := Lowering.suits_of_mem_functions hcheck hlower
    (fun f hf e he => accepted_literalIn hcheck htrees hf he) hg
  obtain ⟨f, -, hbecomes⟩ := Typed.Program.becomes_of_mem_functions hlower hg
  refine ⟨⟨types, fun block hblock => (hsuits block hblock).wellTyped⟩, ?_⟩
  intro types' hwell block hblock
  obtain ⟨id, hid⟩ := List.getElem?_of_mem hblock
  obtain ⟨before, hpath⟩ := hbecomes.wellFormed.reachable id block hid
  exact hbecomes.singleAssignment.constantsFit hsuits hwell hpath hid

theorem SyntaxTree.exists_instruction_of_any (tree : SyntaxTree) (name : String)
    (test : IR.Instruction → Bool)
    (h : ((checkProgram false [tree]).program.any fun p => (p.lower name).toOption.any fun m =>
      m.functions.any fun g => g.blocks.any fun block => block.instructions.any test) = true) :
    ∃ p m g block i, (checkProgram false [tree]).program = some p ∧ p.lower name = .ok m ∧
      g ∈ m.functions ∧ block ∈ g.blocks ∧ i ∈ block.instructions ∧ test i = true := by
  obtain ⟨p, hp, hany⟩ := (Option.any_eq_true _ _).mp h
  cases hlower : p.lower name with
  | error fault =>
    rw [hlower] at hany
    cases hany
  | ok m =>
    simp only [hlower, Except.toOption, Option.any_some, List.any_eq_true] at hany
    obtain ⟨g, hg, block, hblock, i, hi, htest⟩ := hany
    exact ⟨p, m, g, block, i, hp, hlower, hg, hblock, hi, htest⟩

open Plain in
/-- A function that stores the ends of two ranges: `enum Mode { off, full = 18446744073709551615 }`
and `i8 f(i8* p, Mode* q) { i8 low = -128; *p = 127; *q = Mode::full; return 100 + low; }`. -/
def SyntaxTree.extremes : SyntaxTree :=
  { sourceName := "extremes"
    decls := [
      enum "Mode" [("off", none), ("full", some 18446744073709551615)],
      function (keyword "i8") "f"
        [param (pointer (keyword "i8")) "p", param (pointer (named "Mode")) "q"] [
        binding (keyword "i8") "low" (.unary .neg (number 128) .nowhere),
        assign (target (name "p")) (number 127),
        assign (target (name "q")) (field (name "Mode") "full"),
        ret (.binary .add (number 100) (name "low") .nowhere)]] }

/-- Whether the instruction stores the number. -/
def IR.Instruction.storesNumber (n : Int) : IR.Instruction → Bool
  | .store _ (.constant (.int value)) => value == n
  | _ => false

theorem accepted_lower_constantsFit_extremes :
    (∀ tree ∈ [SyntaxTree.extremes], ∀ decl ∈ tree.decls, decl.VariantsFit) ∧
      ∃ p m g block i, (checkProgram false [.extremes]).program = some p ∧
        p.lower "extremes" = .ok m ∧ g ∈ m.functions ∧ block ∈ g.blocks ∧ i ∈ block.instructions ∧
        i.storesNumber 18446744073709551615 = true ∧
        ∃ types, (∀ block ∈ g.blocks, block.WellTyped ⟨m, g.params, g.ret⟩ types) ∧
          block.ConstantsFit IR.InRange ⟨m, g.params, g.ret⟩ types := by
  have hfits : ∀ tree ∈ [SyntaxTree.extremes], ∀ decl ∈ tree.decls, decl.VariantsFit := by
    simp [SyntaxTree.extremes, Plain.enum, Plain.function, TopLevel.VariantsFit,
      Declarations.maxVariant]
  obtain ⟨p, m, g, block, i, hp, hlower, hg, hblock, hi, htest⟩ :=
    SyntaxTree.exists_instruction_of_any .extremes "extremes" (·.storesNumber 18446744073709551615)
      (by decide +kernel)
  obtain ⟨⟨types, hwell⟩, hall⟩ := accepted_lower_constantsFit hp hlower hfits g hg
  exact ⟨hfits, p, m, g, block, i, hp, hlower, hg, hblock, hi, htest, types, hwell,
    hall types hwell block hblock⟩

open Plain in
/-- A signed literal and an unsigned one: `int f() { return 1 + 18446744073709551615u; }`. -/
def SyntaxTree.surplus : SyntaxTree :=
  { sourceName := "surplus"
    decls := [function (keyword "int") "f" []
      [ret (.binary .add (number 1) (.integer 18446744073709551615 false .nowhere) .nowhere)]] }

/-- Whether the second operand of the operation is a constant out of range. -/
def IR.Instruction.exceeds : IR.Instruction → Bool
  | .binary _ _ _ (.constant (.int n)) ty => !decide (IR.InRange n ty)
  | _ => false

/-- The sum is one of signed integers, and the second constant is none. -/
theorem accepted_lower_surplus :
    ∃ p m g block dest op left n ty, (checkProgram false [.surplus]).program = some p ∧
      p.lower "surplus" = .ok m ∧ g ∈ m.functions ∧ block ∈ g.blocks ∧
      .binary dest op left (.constant (.int n)) ty ∈ block.instructions ∧ ¬IR.InRange n ty := by
  obtain ⟨p, m, g, block, i, hp, hlower, hg, hblock, hi, htest⟩ :=
    SyntaxTree.exists_instruction_of_any .surplus "surplus" IR.Instruction.exceeds
      (by decide +kernel)
  unfold IR.Instruction.exceeds at htest
  split at htest
  · exact ⟨p, m, g, block, _, _, _, _, _, hp, hlower, hg, hblock, hi, by simpa using htest⟩
  · cases htest

end Laye
