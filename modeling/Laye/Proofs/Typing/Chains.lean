import Laye.Proofs.Passes.Statement
import Mathlib.Logic.Relation

/-!
# Chains of implicit conversions

A conversion that succeeds gives an expression of the type that was asked for, and asking for that
type again changes nothing. `Typed.Expr.Converts` is one conversion to whatever type, and a chain is
a sequence of them.

What a container may not do is not regained on the way. A container that cannot be both read and
written converts to nothing but itself, and a slice of bytes to an owned string besides
(`Typed.Expr.Adjusts.confines`); a string converts to nothing but itself. So a chain from such a
container never comes to a raw pointer, from where every access could be had. -/

namespace Laye

/-! ### One conversion -/

theorem Conversion.between_self (ty : Ty) : Conversion.between ty ty = some .keep := if_pos rfl

namespace Typed.Expr

variable {e : Expr} {target : Ty}

theorem convertTo_of_ty_eq (h : e.ty = target) : e.convertTo target = .ok e := by
  unfold convertTo
  rw [h, Conversion.between_self]

end Typed.Expr

/-! ### What a container can become -/

/-- What may be done through a container. -/
def Ty.access? : Ty → Option Access
  | .array _ _ access | .pointer _ access | .buffer _ access | .slice _ access => some access
  | _ => none

/-- The types that a container is kept to: its own, and that of a string for a slice of bytes. -/
def Ty.Confines (container ty : Ty) : Prop :=
  ty = container ∨ (∃ access, container = .slice .u8 access) ∧ ty = .string

theorem Ty.CastsTo.readWrite {source target : Ty} {access : Access} (h : source.CastsTo target)
    (haccess : source.access? = some access) : access = .readWrite := by
  cases h with
  | bufferToRawptr | pointer | buffer | slice => exact (Option.some.inj haccess).symm
  | integerToFloat hinteger =>
    cases source with
    | int | sizedInt => cases haccess
    | _ => cases hinteger
  | _ => cases haccess

namespace Ty.Confines

variable {container ty : Ty} {access : Access}

section

variable (h : container.Confines ty) (haccess : container.access? = some access)
include h haccess

theorem isUntyped : ty.isUntyped = false := by
  rcases h with rfl | ⟨-, rfl⟩
  · cases ty with
    | array | pointer | buffer | slice => rfl
    | _ => cases haccess
  · rfl

theorem not_castsTo {target : Ty} (hne : access ≠ .readWrite) : ¬ ty.CastsTo target := by
  intro hcast
  rcases h with rfl | ⟨-, rfl⟩
  · exact hne (hcast.readWrite haccess)
  · cases hcast with
    | integerToFloat hinteger => cases hinteger

theorem ne_rawptr : ty ≠ .rawptr := by
  rintro rfl
  rcases h with rfl | ⟨-, hstring⟩
  · cases haccess
  · cases hstring

theorem access_eq {other : Access} (hother : ty.access? = some other) : other = access := by
  rcases h with rfl | ⟨-, rfl⟩
  · exact Option.some.inj (hother.symm.trans haccess)
  · cases hother

end

end Ty.Confines

/-! ### Chains -/

namespace Typed.Expr

/-- The second expression is what an implicit conversion makes of the first. -/
def Converts (e e' : Expr) : Prop := ∃ target, e.convertTo target = .ok e'

theorem Adjusts.confines {e e' : Expr} {container : Ty} {access : Access} (h : e.Adjusts e')
    (hconfines : container.Confines e.ty) (haccess : container.access? = some access)
    (hne : access ≠ .readWrite) : container.Confines e'.ty := by
  have htyped := hconfines.isUntyped haccess
  cases h with
  | same => exact hconfines
  | literal hty | address hty | toFloat hty =>
    rw [hty] at htyped
    cases htyped
  | retype hfits =>
    -- only literals are retyped, and they are no containers
    rcases hfits with ⟨hty, -⟩ | ⟨hty, -⟩ | ⟨hty, -⟩ <;>
    · rw [hty] at htyped
      cases htyped
  | cast hcast => exact (hconfines.not_castsTo haccess hne hcast).elim
  | materialize hslice =>
    rw [hslice] at hconfines
    rcases hconfines with rfl | ⟨-, hstring⟩
    · exact .inr ⟨⟨_, rfl⟩, rfl⟩
    · cases hstring

theorem confines_of_chain {e e' : Expr} {access : Access} (haccess : e.ty.access? = some access)
    (hne : access ≠ .readWrite) (hchain : Relation.ReflTransGen Converts e e') :
    e.ty.Confines e'.ty := by
  induction hchain with
  | refl => exact .inl rfl
  | tail _ hlast ih =>
    obtain ⟨_, hconvert⟩ := hlast
    exact (convertTo_adjusts hconvert).1.confines ih haccess hne

/-- Implicit conversions deliver the type that was asked for, do nothing the second time, and never
gain access.

A conversion that succeeds adds nothing to what was found, and it does not trap at a type that can
be written down. A value that has the type already is left as it is. From a container that cannot be
both read and written, all that a chain of conversions comes to has the container's own type, or is
a string if the container is a slice of bytes: never a raw pointer, and no container with another
access. -/
theorem convertTo_confined (e : Expr) (target : Ty) :
    (∀ e', e.convertTo target = .ok e' →
      (∀ σ : Session, Step.outcome (e.convertTo target) σ = (some e', σ) ∧
        (target.HasKeywordWidth → Guarded.convertTo e target σ = .ok (some e', σ))) ∧
      e'.ty = target ∧ e'.convertTo target = .ok e') ∧
    (e.ty = target → e.convertTo target = .ok e) ∧
    ∀ access, e.ty.access? = some access → access ≠ .readWrite →
      ∀ e', Relation.ReflTransGen Converts e e' →
        (e'.ty = e.ty ∨ e.ty = .slice .u8 access ∧ e'.ty = .string) ∧
        e'.ty ≠ .rawptr ∧
        ∀ other, e'.ty.access? = some other → other = access := by
  refine ⟨fun e' h => ?_, convertTo_of_ty_eq, fun access haccess hne e' hchain => ?_⟩
  · have hty := (convertTo_adjusts h).2
    refine ⟨fun σ => ⟨by rw [h, Step.outcome], fun hwidth => ?_⟩, hty, convertTo_of_ty_eq hty⟩
    rw [Guarded.runs_convertTo hwidth e σ, h, Step.outcome]
  · have hconfines := confines_of_chain haccess hne hchain
    refine ⟨?_, hconfines.ne_rawptr haccess, fun other => hconfines.access_eq haccess⟩
    rcases hconfines with hsame | ⟨⟨access', hbytes⟩, hstring⟩
    · exact Or.inl hsame
    · rw [hbytes] at haccess ⊢
      cases haccess
      exact Or.inr ⟨rfl, hstring⟩

/-- Bytes that can only be read. -/
def someBytes : Expr := .load (.slice .u8 .readOnly) .nowhere 0

theorem convertTo_confined_someBytes :
    someBytes.convertTo .string = .ok (someBytes.materializeTo .string) ∧
    (someBytes.materializeTo .string).convertTo .string = .ok (someBytes.materializeTo .string) ∧
    Relation.ReflTransGen Converts someBytes (someBytes.materializeTo .string) ∧
    ∀ e', Relation.ReflTransGen Converts someBytes e' →
      (e'.ty = .slice .u8 .readOnly ∨ e'.ty = .string) ∧ e'.ty ≠ .rawptr := by
  have hconvert : someBytes.convertTo .string = .ok (someBytes.materializeTo .string) := by rfl
  obtain ⟨hdelivers, -, hchains⟩ := convertTo_confined someBytes .string
  refine ⟨hconvert, (hdelivers _ hconvert).2.2, .single ⟨_, hconvert⟩, fun e' hchain => ?_⟩
  obtain ⟨htypes, hraw, -⟩ := hchains .readOnly rfl (by decide) e' hchain
  exact ⟨htypes.imp_right And.right, hraw⟩

end Typed.Expr

end Laye
