import Laye.Proofs.Lowering.Extension
import Laye.Proofs.Typing.Canonical

/-!
# Expressions can be lowered

The code of an expression loads its variables from their slots. If these are there
(`Builder.Holds`), an expression that is well typed can be lowered: `Typed.Expr.total_lower`.
Nothing that an expression is refused for can occur in it. -/

namespace Laye

open IR

namespace Builder

variable {b b' : Builder} {known : List SymbolId}

/-- The variables have slots. -/
def Holds (b : Builder) (known : List SymbolId) : Prop :=
  ∀ id ∈ known, (b.slotOf? id).isSome = true

theorem Holds.of_slots (h : b.Holds known) (hslots : b'.slots = b.slots) : b'.Holds known := by
  intro id hid
  rw [slotOf?, hslots]
  exact h id hid

theorem Holds.mono {known' : List SymbolId} (h : b.Holds known) (hsub : known' ⊆ known) :
    b.Holds known' :=
  fun id hid => h id (hsub hid)

/-- Binding a variable adds it to those that have a slot. -/
theorem Holds.withVariable (h : b.Holds known) (symbol : SymbolId) (slot : Register) :
    (b.withVariable symbol slot).Holds (symbol :: known) := by
  intro id hid
  simp only [slotOf?, Builder.withVariable, List.lookup_cons]
  split
  · rfl
  · rename_i hne
    rcases List.mem_cons.mp hid with rfl | hid
    · simp at hne
    · exact h id hid

end Builder

namespace Lower

/-- With slots for the variables in `known`, the step succeeds and keeps them. -/
def Total {α : Type} (known : List SymbolId) (x : Lower α) : Prop :=
  ∀ ⦃b : Builder⦄, b.Holds known → ∃ a b', x b = .ok (a, b') ∧ b'.Holds known

namespace Total

variable {α β : Type} {known : List SymbolId}

theorem of_run {x : Lower α} (f : Builder → α × Builder) (hrun : ∀ b, x b = .ok (f b))
    (hslots : ∀ b, (f b).2.slots = b.slots) : Total known x :=
  fun b hb => ⟨(f b).1, (f b).2, hrun b, hb.of_slots (hslots b)⟩

theorem pure (a : α) : Total known (Pure.pure a : Lower α) :=
  of_run (fun b => (a, b)) (fun _ => rfl) fun _ => rfl

theorem bind {x : Lower α} {f : α → Lower β} (hx : Total known x) (hf : ∀ a, Total known (f a)) :
    Total known (x >>= f) := by
  intro b hb
  obtain ⟨a, b', hrun, hb'⟩ := hx hb
  obtain ⟨c, b'', hrest, hb''⟩ := hf a hb'
  exact ⟨c, b'', bind_eq_ok.mpr ⟨a, b', hrun, hrest⟩, hb''⟩

theorem define (i : Register → Instruction) : Total known (Lower.define i) :=
  of_run _ (define_run i) fun _ => rfl

theorem emit (i : Instruction) : Total known (Lower.emit i) :=
  of_run _ (emit_run i) fun _ => rfl

theorem reserve (ty : IR.Ty) : Total known (Lower.reserve ty) :=
  of_run _ (reserve_run ty) fun _ => rfl

theorem newBlock (label : String) : Total known (Lower.newBlock label) :=
  of_run _ (newBlock_run label) fun _ => rfl

theorem moveTo (id : BlockId) : Total known (Lower.moveTo id) :=
  of_run _ (moveTo_run id) fun _ => rfl

theorem close (t : Terminator) : Total known (Lower.close t) :=
  of_run _ (close_run t) fun _ => rfl

theorem fallInto (target : BlockId) : Total known (Lower.fallInto target) :=
  of_run _ (fallInto_run target) fun _ => by simp

theorem load (ty : Ty) (op : Operand) : Total known (op.load ty) := by
  cases op with
  | value v => exact pure v
  | place _ => exact define _

theorem address (ty : Ty) (op : Operand) : Total known (op.address ty) := by
  cases op with
  | value v => exact (reserve _).bind fun _ => (emit _).bind fun _ => pure _
  | place ptr => exact pure ptr

theorem computed (i : Register → Instruction) : Total known (Lowering.computed i) :=
  (define i).bind fun _ => pure _

variable {symbols : SymbolTable} {target : Typed.Expr} {lowered : Lower Operand}

theorem symbol {id : SymbolId} (span : Span)
    (h : id ∈ known ∨ (symbols.symbolAt id).kind = .function) :
    Total known (Lowering.symbol symbols id span) := by
  intro b hb
  simp only [Lowering.symbol, bind_eq_ok, slotOf?_run, Except.ok.injEq, Prod.mk.injEq, ↓existsAndEq,
    true_and]
  cases hslot : b.slotOf? id with
  | some _ => exact ⟨_, b, rfl, hb⟩
  | none =>
    have hkind : (symbols.symbolAt id).kind = .function := by
      refine h.resolve_left fun hmem => ?_
      simpa [hslot] using hb id hmem
    refine ⟨.value (.global (symbols.symbolAt id).name), b, ?_, hb⟩
    simp only [hkind, if_true]
    rfl

theorem optionalValue {value : Option Typed.Expr}
    (h : ∀ e ∈ value, Total known (e.lowerValue symbols)) :
    Total known (Lowering.optionalValue symbols value) := by
  cases value with
  | none => exact pure _
  | some e => exact (h e rfl).bind fun _ => pure _

theorem call (name : String) (ty : Ty) (args : List IR.Value) :
    Total known (Lowering.call name ty args) := by
  unfold Lowering.call
  split
  · exact (emit _).bind fun _ => pure _
  · exact computed _

theorem shortCircuit {isAnd : Bool} {left right : Lower IR.Value} (hleft : Total known left)
    (hright : Total known right) : Total known (Lowering.shortCircuit isAnd left right) :=
  (reserve _).bind fun _ => hleft.bind fun _ => (emit _).bind fun _ => (newBlock _).bind fun _ =>
    (newBlock _).bind fun _ => (close _).bind fun _ => (moveTo _).bind fun _ => hright.bind fun _ =>
    (emit _).bind fun _ => (fallInto _).bind fun _ => (moveTo _).bind fun _ => computed _

theorem elements (h : Total known lowered) {element : Ty}
    (helement : symbols.elementType? target.ty = some element) :
    Total known (Lowering.elements target lowered) := by
  unfold Lowering.elements
  generalize target.ty = ty at helement ⊢
  cases ty with
  | array => exact h.bind fun op => address _ op
  | pointer | buffer | rawptr => exact h.bind fun op => load _ op
  | slice | string => exact h.bind fun op => (load _ op).bind fun _ => define _
  | _ => cases helement

theorem field (h : Total known lowered) {struct : String} {typeParams : List TypeParam}
    {fields : List (String × Ty)} (hstruct : target.ty = .struct struct typeParams fields)
    (place : Nat) : Total known (Lowering.field target lowered place) := by
  unfold Lowering.field
  rw [hstruct]
  exact h.bind fun op => (address _ op).bind fun _ => (define _).bind fun _ => pure _

end Total

end Lower

namespace Typed.Expr

open Lower (Total)

variable {symbols : SymbolTable} {known : List SymbolId} {e : Expr}

theorem total_lowerAll {args : List Expr} (h : ∀ arg ∈ args, Total known (arg.lower symbols)) :
    Total known (lowerAll symbols args) := by
  induction args with
  | nil => exact .pure _
  | cons arg _ ih =>
    exact (h arg (by simp)).bind fun _ => (Total.load _ _).bind fun _ =>
      (ih fun a ha => h a (by simp [ha])).bind fun _ => .pure _

section

variable (h : e.WellTyped symbols) (hreads : e.Reads symbols known)
include h hreads

/-- A well-typed expression can be lowered, if the variables it reads have slots. -/
theorem total_lower : Total known (e.lower symbols) := by
  induction h with
  | integer | variant | float | bool | string => exact .pure _
  | load span _ _ => exact .symbol span hreads
  | cast _ _ _ _ ih => exact (ih hreads.2).bind fun _ => (Total.load _ _).bind fun _ => .computed _
  | materialize _ _ _ ih | unary _ _ _ ih =>
    exact (ih hreads).bind fun _ => (Total.load _ _).bind fun _ => .computed _
  | invoke _ _ _ _ _ ih =>
    exact (total_lowerAll fun arg harg => ih arg harg (hreads.of_mem harg)).bind fun _ =>
      .call _ _ _
  | @binary _ left right _ _ _ _ _ ihleft ihright =>
    have hleft : Total known (do (← left.lower symbols).load left.ty) :=
      (ihleft hreads.1).bind fun _ => .load _ _
    have hright : Total known (do (← right.lower symbols).load right.ty) :=
      (ihright hreads.2).bind fun _ => .load _ _
    unfold lower
    split
    · exact .shortCircuit hleft hright
    · exact (ihleft hreads.1).bind fun _ => (Total.load _ _).bind fun _ =>
        (ihright hreads.2).bind fun _ => (Total.load _ _).bind fun _ => .computed _
  | addressOf _ _ _ ih => exact (ih hreads).bind fun _ => (Total.address _ _).bind fun _ => .pure _
  | dereference _ _ _ ih => exact (ih hreads).bind fun _ => (Total.load _ _).bind fun _ => .pure _
  | @index _ _ i _ _ _ helement _ ihtarget ihi =>
    have hi : Total known (do (← i.lower symbols).load i.ty) :=
      (ihi hreads.2).bind fun _ => .load _ _
    exact (Total.elements (ihtarget hreads.1) helement).bind fun _ => hi.bind fun _ =>
      (Total.define _).bind fun _ => .pure _
  | field _ _ hstruct _ _ ih => exact .field (ih hreads) hstruct _

theorem total_lowerValue : Total known (e.lowerValue symbols) :=
  (total_lower h hreads).bind fun _ => .load _ _

theorem total_lowerAddress : Total known (e.lowerAddress symbols) :=
  (total_lower h hreads).bind fun _ => .address _ _

end

end Typed.Expr

end Laye
