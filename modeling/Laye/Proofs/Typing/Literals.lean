import Laye.Lowering.Expression
import Laye.Proofs.Passes.Statement
import Laye.Proofs.Regular.Program
import Mathlib.Algebra.Ring.Int.Defs
import Mathlib.Algebra.Ring.Parity

/-!
# The ranges of integer literals

A literal is a magnitude and a sign, and a negation of it changes the sign alone
(`Expr.check_negated`). It may have an integer type exactly if the number it denotes is in the range
of the type (`literalProblem?_eq_none_iff`), and then nothing but the type is changed.

So a literal is refused at a type exactly if it is out of range, with a single fault. The literals
of accepted programs are in the ranges of their types, for each of them got its type in this way
(`literals_inRange`).
-/

namespace Laye

/-- The number is between the least and the largest integer of the type. -/
def Ty.InRange (n : Int) (ty : Ty) : Prop :=
  match ty.integerInfo? with
  | some (true, bits) => -2 ^ (bits - 1) ≤ n ∧ n ≤ 2 ^ (bits - 1) - 1
  | some (false, bits) => 0 ≤ n ∧ n ≤ 2 ^ bits - 1
  | none => False

/-! ### Limits -/

theorem natCast_two_pow (bits : Nat) : ((Nat.pow 2 bits : Nat) : Int) = 2 ^ bits := by
  exact_mod_cast rfl

theorem le_limit_signed_iff (magnitude bits : Nat) (negative : Bool) :
    magnitude ≤ literalLimit true bits negative ↔
      -2 ^ (bits - 1) ≤ Lowering.signed magnitude negative ∧
        Lowering.signed magnitude negative ≤ 2 ^ (bits - 1) - 1 := by
  have hpos : 0 < Nat.pow 2 (bits - 1) := Nat.two_pow_pos _
  rw [← natCast_two_pow]
  cases negative with
  | true =>
    simp only [literalLimit, if_true, Lowering.signed]
    omega
  | false =>
    simp only [literalLimit, if_true, Bool.false_eq_true, if_false, Lowering.signed]
    omega

theorem le_limit_unsigned_iff (magnitude bits : Nat) (negative : Bool) :
    (negative && magnitude != 0) = false ∧ magnitude ≤ literalLimit false bits negative ↔
      0 ≤ Lowering.signed magnitude negative ∧
        Lowering.signed magnitude negative ≤ 2 ^ bits - 1 := by
  have hpos : 0 < Nat.pow 2 bits := Nat.two_pow_pos _
  rw [← natCast_two_pow]
  cases negative with
  | true =>
    simp only [literalLimit, Bool.false_eq_true, if_false, if_true, Lowering.signed,
      Bool.true_and, bne_eq_false_iff_eq]
    omega
  | false =>
    simp only [literalLimit, Bool.false_eq_true, if_false, Lowering.signed, Bool.false_and,
      true_and]
    omega

variable {target : Ty}

theorem literalProblem?_eq_none_iff {magnitude : Nat} {negative : Bool}
    (htarget : target.isInteger = true) :
    literalProblem? magnitude negative target = none ↔
      target.InRange (Lowering.signed magnitude negative) := by
  obtain ⟨signed, bits, hinfo⟩ : ∃ signed bits, target.integerInfo? = some (signed, bits) := by
    cases target with
    | int _ | sizedInt _ _ => exact ⟨_, _, rfl⟩
    | _ => cases htarget
  cases signed with
  | true =>
    simp only [literalProblem?, Ty.InRange, hinfo, Bool.not_true, Bool.and_false,
      Bool.false_eq_true, if_false, ite_eq_left_iff, reduceCtorEq, imp_false, not_not]
    exact le_limit_signed_iff magnitude bits negative
  | false =>
    simp only [literalProblem?, Ty.InRange, hinfo, Bool.not_false, Bool.and_true]
    rw [← le_limit_unsigned_iff]
    cases negative && magnitude != 0 <;> simp

theorem Typed.Expr.literalAs_cases (htarget : target.isInteger = true) (ty : Ty) (span : Span)
    (magnitude : Nat) (negative : Bool) :
    (target.InRange (Lowering.signed magnitude negative) ∧
      (integer ty span magnitude negative).literalAs target =
        .ok (.integer target span magnitude negative)) ∨
    (¬ target.InRange (Lowering.signed magnitude negative) ∧ ∃ problem,
      (integer ty span magnitude negative).literalAs target = .error ⟨span, problem⟩) := by
  rw [← literalProblem?_eq_none_iff htarget]
  simp only [literalAs]
  cases literalProblem? magnitude negative target with
  | none => exact .inl ⟨rfl, rfl⟩
  | some problem => exact .inr ⟨by simp, problem, rfl⟩

/-! ### Negations -/

/-- The expression under negations, each with its span. -/
def Expr.negated (e : Expr) : List Span → Expr
  | [] => e
  | span :: spans => .unary .neg (e.negated spans) span

theorem Expr.check_negated (ctx : Context) (value : Nat) (signed : Bool) (span : Span)
    (spans : List Span) :
    ((integer value signed span).negated spans).check ctx =
      .ok (.integer (.untypedInt (signed || !spans.isEmpty)) (spans.headD span) value
        (spans.length % 2 == 1)) := by
  induction spans with
  | nil => simp [negated, check]
  | cons _ spans ih =>
    have hparity : (!(spans.length % 2 == 1)) = ((spans.length + 1) % 2 == 1) := by
      rcases Nat.mod_two_eq_zero_or_one spans.length with h | h <;> simp [Nat.add_mod, h]
    rw [negated, check, ih]
    simp only [List.length_cons, ← hparity]
    simp [bind, Except.bind, Typing.unary, Typing.negation]

theorem signed_parity (value n : Nat) :
    Lowering.signed value (n % 2 == 1) = (-1) ^ n * (value : Int) := by
  rcases Nat.even_or_odd n with h | h
  · rw [h.neg_one_pow]
    simp [Lowering.signed, Nat.even_iff.mp h]
  · rw [h.neg_one_pow]
    simp [Lowering.signed, Nat.odd_iff.mp h]

theorem Typing.exprAt_negated (htarget : target.isInteger = true) (ctx : Context) (value : Nat)
    (signed : Bool) (span : Span) (spans : List Span) :
    exprAt ctx target ((Expr.integer value signed span).negated spans) =
      (Typed.Expr.integer (.untypedInt (signed || !spans.isEmpty)) (spans.headD span) value
        (spans.length % 2 == 1)).literalAs target := by
  rw [exprAt, Expr.check_negated]
  cases target with
  | int _ | sizedInt _ _ =>
    simp [bind, Except.bind, Typed.Expr.convertTo, Conversion.between, Typed.Expr.ty]
  | _ => cases htarget

/-! ### Programs -/

theorem hasKeywordWidth_of_keyword {keyword : String} {span : Span}
    (h : TypeExpr.resolveBuiltin keyword span = .ok target) : target.HasKeywordWidth := by
  unfold TypeExpr.resolveBuiltin at h
  split at h
  · rename_i hkeyword
    rintro signed bits rfl
    cases h
    exact of_decide_eq_true (Builtin.isKeyword_of_ofKeyword hkeyword)
  · cases h
  · cases h

theorem mem_integerWidths_of_keyword {keyword : String} {span : Span}
    (h : TypeExpr.resolveBuiltin keyword span = .ok target) (htarget : target.isInteger = true) :
    ∃ signed, ∃ bits ∈ Builtin.integerWidths, target.integerInfo? = some (signed, bits) := by
  have hwidth := hasKeywordWidth_of_keyword h
  cases target with
  | int signed => exact ⟨signed, 64, by decide, rfl⟩
  | sizedInt signed bits => exact ⟨signed, bits, hwidth signed bits rfl, rfl⟩
  | _ => cases htarget

theorem accepted_inRange {keepGoing : Bool} {trees : List SyntaxTree} {p : Typed.Program}
    (h : (checkProgram keepGoing trees).program = some p) {f : Typed.Function}
    (hf : .function f ∈ p.decls) {ty : Ty} {span : Span} {magnitude : Nat} {negative : Bool}
    (hliteral : .integer ty span magnitude negative ∈ f.body.exprs) (hty : ty.isInteger = true) :
    ty.InRange (Lowering.signed magnitude negative) :=
  (literalProblem?_eq_none_iff hty).mp ((accepted_regular h).2 f hf _ hliteral).2

/-- The integer literals of accepted programs are in the ranges of their integer types.

At an integer type that has a keyword, a literal keeps its magnitude and its sign if it is in range.
Otherwise it is refused, and one fault is added to what was found. With negations in front, the
negated number counts. The limits are computed in words without leaving them. -/
theorem literals_inRange :
    (∀ (keepGoing : Bool) (trees : List SyntaxTree) (p : Typed.Program),
      (checkProgram keepGoing trees).program = some p →
      ∀ f, .function f ∈ p.decls → ∀ ty span magnitude negative,
        .integer ty span magnitude negative ∈ f.body.exprs → ty.isInteger = true →
          ty.InRange (Lowering.signed magnitude negative)) ∧
    ∀ (keyword : String) (place : Span) (target : Ty),
      TypeExpr.resolveBuiltin keyword place = .ok target → target.isInteger = true →
      (∀ (σ : Session) (signed : Bool) (span : Span) (magnitude : Nat) (negative : Bool),
        let literal := Typed.Expr.integer (.untypedInt signed) span magnitude negative
        let retyped := Guarded.literalAs literal target σ
        (retyped = .ok (some (.integer target span magnitude negative), σ) ↔
          target.InRange (Lowering.signed magnitude negative)) ∧
        (¬ target.InRange (Lowering.signed magnitude negative) → ∃ problem,
          retyped = .ok (none, { σ with findings := σ.findings ++ [.fault ⟨span, problem⟩] }))) ∧
      (∀ (ctx : Context) (value : Nat) (signed : Bool) (span : Span) (spans : List Span),
        Typing.exprAt ctx target ((Expr.integer value signed span).negated spans) =
            .ok (.integer target (spans.headD span) value (spans.length % 2 == 1)) ↔
          target.InRange ((-1) ^ spans.length * value)) ∧
      ∀ negative, ∃ signed bits word, target.integerInfo? = some (signed, bits) ∧
        Word.limit signed bits negative = .ok word ∧
        word.toNat = literalLimit signed bits negative := by
  refine ⟨fun keepGoing trees p hp f hf ty span magnitude negative hliteral hty =>
    accepted_inRange hp hf hliteral hty, ?_⟩
  intro keyword place target hkeyword htarget
  have hwidth := hasKeywordWidth_of_keyword hkeyword
  refine ⟨fun σ signed span magnitude negative => ?_, fun ctx value signed span spans => ?_,
    fun negative => ?_⟩
  · intro literal retyped
    have hrun : retyped = .ok (Step.outcome (literal.literalAs target) σ) :=
      Guarded.runs_literalAs hwidth literal σ
    rw [hrun]
    rcases Typed.Expr.literalAs_cases htarget (.untypedInt signed) span magnitude negative with
      ⟨hrange, hok⟩ | ⟨hrange, problem, herror⟩
    · rw [hok]
      exact ⟨iff_of_true rfl hrange, fun hnot => absurd hrange hnot⟩
    · rw [herror]
      exact ⟨iff_of_false (by simp [Step.outcome]) hrange, fun _ => ⟨problem, rfl⟩⟩
  · rw [Typing.exprAt_negated htarget, ← signed_parity]
    rcases Typed.Expr.literalAs_cases htarget (.untypedInt (signed || !spans.isEmpty))
        (spans.headD span) value (spans.length % 2 == 1) with
      ⟨hrange, hok⟩ | ⟨hrange, problem, herror⟩
    · rw [hok]
      exact iff_of_true rfl hrange
    · rw [herror]
      exact iff_of_false (by simp) hrange
  · obtain ⟨signed, bits, hbits, hinfo⟩ := mem_integerWidths_of_keyword hkeyword htarget
    obtain ⟨word, hword, hlimit⟩ := Word.limit_eq_ok hbits signed negative
    exact ⟨signed, bits, word, hinfo, hword, hlimit⟩

open Plain in
/-- The least byte, under three negations: `i8 f() => ---128;`. -/
def SyntaxTree.lowest : SyntaxTree :=
  { sourceName := "lowest"
    decls := [.function ⟨[], keyword "i8", ident "f", [], .none,
      .expression ((number 128).negated [.nowhere, .nowhere, .nowhere]), .nowhere⟩] }

/-- Whether the expression is the literal of the least byte. -/
def Typed.Expr.isLowest : Typed.Expr → Bool
  | .integer ty _ magnitude negative => ty == .sizedInt true 8 && magnitude == 128 && negative
  | _ => false

theorem literals_inRange_lowest :
    (∃ p f span, (checkProgram false [.lowest]).program = some p ∧ .function f ∈ p.decls ∧
      .integer (.sizedInt true 8) span 128 true ∈ f.body.exprs ∧
      Ty.InRange (Lowering.signed 128 true) (.sizedInt true 8)) ∧
    ∀ (ctx : Context) (span : Span) (spans : List Span),
      Typing.exprAt ctx (.sizedInt true 8) ((Expr.integer 128 true span).negated spans) =
          .ok (.integer (.sizedInt true 8) (spans.headD span) 128 (spans.length % 2 == 1)) ↔
        Ty.InRange ((-1) ^ spans.length * 128) (.sizedInt true 8) := by
  obtain ⟨p, f, hp, hf, hnode⟩ : ∃ p f, (checkProgram false [.lowest]).program = some p ∧
      .function f ∈ p.decls ∧ f.body.exprs.any Typed.Expr.isLowest = true :=
    exists_function_of_any (by decide +kernel)
  obtain ⟨e, he, hlowest⟩ := List.any_eq_true.mp hnode
  have hkeyword : Builtin.ofKeyword "i8" = .type (.sizedInt true 8) := by decide +kernel
  have hbyte : TypeExpr.resolveBuiltin "i8" .nowhere = .ok (.sizedInt true 8) := by
    simp only [TypeExpr.resolveBuiltin, hkeyword]
  refine ⟨?_, fun ctx span spans =>
    (literals_inRange.2 "i8" .nowhere _ hbyte rfl).2.1 ctx 128 true span spans⟩
  cases e with
  | integer ty span magnitude negative =>
    simp only [Typed.Expr.isLowest, Bool.and_eq_true, beq_iff_eq] at hlowest
    obtain ⟨⟨rfl, rfl⟩, rfl⟩ := hlowest
    exact ⟨p, f, span, hp, hf, he, literals_inRange.1 false _ p hp f hf _ _ _ _ he rfl⟩
  | _ => cases hlowest

end Laye
