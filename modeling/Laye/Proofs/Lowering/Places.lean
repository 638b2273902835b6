import Laye.Proofs.Elaboration.Lexical
import Laye.Proofs.Lowering.Variables

/-!
# Addresses of places

Lowering gives every expression an address. What is no place is stored in a slot of its own for
that, and a store to such a slot would be lost. `Typed.Expr.Reaches` has no such way out. It says
which code computes the address of a place: the address starts as the slot that was reserved for the
variable at the root of the place, or as a pointer, buffer, slice or string that the program has
computed, and leads on through elements and fields only.

Wherever the checker has seen to it that an expression is a place, its code is of this kind
(`Typed.Expr.reaches_of_lower`). So the assignments of an accepted program, and the operators that
take an address, reach the storage of the place itself (`accepted_reach_storage`).
-/

namespace Laye

namespace Typed.Expr

variable {symbols : SymbolTable}

/-- From the builder `b` on, code is added until the builder is the last one, and that code computes
the address of the place that an expression names. -/
inductive Reaches (symbols : SymbolTable) (b : Builder) : Expr → IR.Value → Builder → Prop where
  /-- The address of a variable is the slot in the entry block that is reserved for it. -/
  | variable {ty : Ty} {span : Span} {id : SymbolId} {slot : IR.Register}
      (bound : (id, slot) ∈ b.slots) (reserved : b.Reserves slot) :
      Reaches symbols b (.load ty span id) (.register slot) b
  /-- What a pointer points to is at the value of the pointer. -/
  | pointee {ty : Ty} {span : Span} {inner : Expr} {address : IR.Value} {b' : Builder}
      (pointer : inner.lowerValue symbols b = .ok (address, b')) :
      Reaches symbols b (.dereference ty span inner) address b'
  /-- The elements of an array are in the array. -/
  | arrayElement {ty element : Ty} {size : Nat} {access : Access} {span : Span} {target i : Expr}
      {base index : IR.Value} {b1 b2 : Builder} (array : target.ty = .array element size access)
      (start : Reaches symbols b target base b1)
      (position : i.lowerValue symbols b1 = .ok (index, b2)) :
      Reaches symbols b (.index ty span target i) (.register b2.nextRegister)
        (b2.withDefinition fun dest => .element dest base index ty.shape)
  /-- Those of a buffer are where the buffer points to. -/
  | bufferElement {ty element : Ty} {access : Access} {span : Span} {target i : Expr}
      {base index : IR.Value} {b1 b2 : Builder} (buffer : target.ty = .buffer element access)
      (start : target.lowerValue symbols b = .ok (base, b1))
      (position : i.lowerValue symbols b1 = .ok (index, b2)) :
      Reaches symbols b (.index ty span target i) (.register b2.nextRegister)
        (b2.withDefinition fun dest => .element dest base index ty.shape)
  /-- Those of a slice or a string are where its data is. -/
  | sliceElement {ty : Ty} {span : Span} {target i : Expr} {value index : IR.Value}
      {b1 b2 : Builder}
      (slice : (∃ element access, target.ty = .slice element access) ∨ target.ty = .string)
      (start : target.lowerValue symbols b = .ok (value, b1))
      (position : i.lowerValue symbols (b1.withDefinition fun dest => .sliceData dest value) =
        .ok (index, b2)) :
      Reaches symbols b (.index ty span target i) (.register b2.nextRegister)
        (b2.withDefinition fun dest =>
          .element dest (.register b1.nextRegister) index ty.shape)
  /-- A field is in its struct. -/
  | field {ty : Ty} {span : Span} {target : Expr} {name fieldName : String} {place : Nat}
      {typeParams : List TypeParam} {fields : List (String × Ty)} {base : IR.Value} {b' : Builder}
      (struct : target.ty = .struct name typeParams fields)
      (start : Reaches symbols b target base b') :
      Reaches symbols b (.field ty span target fieldName place) (.register b'.nextRegister)
        (b'.withDefinition fun dest => .field dest base name place)

theorem sliceData_stages {target : Expr} {ty : Ty} (hty : target.ty = ty) {b b' : Builder}
    {base : IR.Value} (h : (target.lower symbols >>= fun op => op.load ty >>= fun value =>
      Lower.define fun dest => .sliceData dest value) b = .ok (base, b')) :
    ∃ value b1, target.lowerValue symbols b = .ok (value, b1) ∧
      base = .register b1.nextRegister ∧
      b' = b1.withDefinition fun dest => .sliceData dest value := by
  subst hty
  obtain ⟨op, b1, hlower, hrest⟩ := Lower.bind_eq_ok.mp h
  obtain ⟨value, b2, hload, hdefine⟩ := Lower.bind_eq_ok.mp hrest
  rw [Lower.define_run, Except.ok.injEq, Prod.mk.injEq] at hdefine
  exact ⟨value, b2, Lower.bind_eq_ok.mpr ⟨op, b1, hlower, hload⟩, hdefine.1.symm, hdefine.2.symm⟩

/-- The code of a place computes the address of the place. -/
theorem reaches_of_lower : (e : Expr) → e.WellTyped symbols →
    e.isPlace symbols.isBinding = true → {b b' : Builder} → Builder.start.Extends b →
    {op : Operand} → e.lower symbols b = .ok (op, b') →
      ∃ address, op = .place address ∧ e.Reaches symbols b address b'
  | .load _ _ id, _, hplace, b, b', hstarted, _, h => by
    have hkind : (symbols.symbolAt id).kind ≠ .function := by
      intro heq
      simp [isPlace, SymbolTable.isBinding, heq] at hplace
    obtain ⟨rfl, ⟨slot, hslot, rfl⟩ | ⟨-, hfunction, -⟩⟩ := Lowering.symbol_stages h
    · have hbound : (id, slot) ∈ b'.slots := by
        obtain ⟨_, _, hslots, -⟩ := List.lookup_eq_some_iff.mp hslot
        simp [hslots]
      exact ⟨_, rfl, .variable hbound (Builder.reserves_of_mem_slots hstarted hbound)⟩
    · exact absurd hfunction hkind
  | .dereference _ _ _, _, _, b, _, _, _, h => by
    obtain ⟨inner', b1, hinner, hrest⟩ := Lower.bind_eq_ok.mp h
    obtain ⟨address, _, hload, hdone⟩ := Lower.bind_eq_ok.mp hrest
    cases hdone
    exact ⟨address, rfl, .pointee (Lower.bind_eq_ok.mpr ⟨inner', b1, hinner, hload⟩)⟩
  | .index ty _ target i, hwell, hplace, b, _, hstarted, _, h => by
    obtain ⟨_, _, hbase, hrest⟩ := Lower.bind_eq_ok.mp h
    obtain ⟨index, _, hindex, hdefine⟩ := Lower.bind_eq_ok.mp hrest
    obtain ⟨rfl, rfl⟩ := hdefine
    refine ⟨_, rfl, ?_⟩
    cases hwell with
    | index _ htarget _ helement _ =>
      unfold Lowering.elements at hbase
      cases hty : target.ty with
      | array _ _ _ =>
        rw [isPlace, hty] at hplace
        rw [hty] at hbase
        obtain ⟨_, _, hlower, haddress⟩ := Lower.bind_eq_ok.mp hbase
        obtain ⟨_, rfl, hreaches⟩ := reaches_of_lower target htarget hplace hstarted hlower
        cases haddress
        exact .arrayElement hty hreaches hindex
      | buffer _ _ =>
        rw [hty] at hbase
        exact .bufferElement hty (by rwa [lowerValue, hty]) hindex
      | slice element access =>
        rw [hty] at hbase
        obtain ⟨_, _, hvalue, rfl, rfl⟩ := sliceData_stages hty hbase
        exact .sliceElement (.inl ⟨element, access, hty⟩) hvalue hindex
      | string =>
        rw [hty] at hbase
        obtain ⟨_, _, hvalue, rfl, rfl⟩ := sliceData_stages hty hbase
        exact .sliceElement (.inr hty) hvalue hindex
      -- nothing else has elements
      | _ => simp [hty, SymbolTable.elementType?] at helement
  | .field _ _ target _ _, hwell, hplace, b, _, hstarted, _, h => by
    cases hwell with
    | field _ htarget hstruct _ _ =>
      unfold lower Lowering.field at h
      rw [hstruct] at h
      obtain ⟨_, _, hlower, hrest⟩ := Lower.bind_eq_ok.mp h
      obtain ⟨_, rfl, hreaches⟩ := reaches_of_lower target htarget hplace hstarted hlower
      obtain ⟨_, _, haddress, hdefine⟩ := Lower.bind_eq_ok.mp hrest
      cases haddress
      obtain ⟨rfl, rfl⟩ := hdefine
      exact ⟨_, rfl, .field hstruct hreaches⟩

/-- An address that is taken of a place is that of the place. -/
theorem reaches_of_lowerAddress {e : Expr} (hwell : e.WellTyped symbols)
    (hplace : e.isPlace symbols.isBinding = true) {b b' : Builder}
    (hstarted : Builder.start.Extends b) {address : IR.Value}
    (h : e.lowerAddress symbols b = .ok (address, b')) : e.Reaches symbols b address b' := by
  obtain ⟨_, _, hlower, haddress⟩ := Lower.bind_eq_ok.mp h
  obtain ⟨_, rfl, hreaches⟩ := reaches_of_lower e hwell hplace hstarted hlower
  cases haddress
  exact hreaches

end Typed.Expr

/-- In an accepted program, the code of every assignment computes the address of the place that is
assigned to, then the value, and stores the value there. The code that takes an address computes
that of the place. The variables at the root of places have a slot each. -/
theorem accepted_reach_storage {keepGoing : Bool} {trees : List SyntaxTree} {p : Typed.Program}
    (h : (checkProgram keepGoing trees).program = some p) {f : Typed.Function}
    (hf : .function f ∈ p.decls) :
    (∀ target value span, .assign target value span ∈ f.body.stmts →
      ∀ loop b b', Builder.start.Extends b →
        (Typed.Stmt.assign target value span).lower p.symbols loop b = .ok ((), b') →
        ∃ address b1 v b2, target.Reaches p.symbols b address b1 ∧
          value.lowerValue p.symbols b1 = .ok (v, b2) ∧
          b' = b2.withInstruction (.store address v)) ∧
    (∀ ty span inner, .addressOf ty span inner ∈ f.body.exprs →
      ∀ b op b', Builder.start.Extends b →
        (Typed.Expr.addressOf ty span inner).lower p.symbols b = .ok (op, b') →
        ∃ address, op = .value address ∧ inner.Reaches p.symbols b address b') ∧
    ∀ returnsVoid b, Lowering.code p.symbols returnsVoid f .start = .ok ((), b) →
      (∀ entry ∈ b.slots, p.symbols.isBinding entry.1 = true ∧ b.Reserves entry.2) ∧
      (b.slots.map Prod.fst).Nodup ∧ b.slots.Pairwise fun entry entry' => entry'.2 < entry.2 := by
  obtain ⟨signature, hwell⟩ := (accepted_wellTyped h).2 f hf
  refine ⟨fun target value span hmem loop b b' hstarted hlower => ?_,
    fun ty span inner hmem b op b' hstarted hlower => ?_, fun returnsVoid b hcode => ?_⟩
  · obtain ⟨inLoop, hassign⟩ := hwell.body.of_mem_stmts hmem
    cases hassign with
    | assign _ htarget hplace _ _ _ =>
      unfold Typed.Stmt.lower at hlower
      obtain ⟨address, b1, haddress, hrest⟩ := Lower.bind_eq_ok.mp hlower
      obtain ⟨v, b2, hvalue, hstore⟩ := Lower.bind_eq_ok.mp hrest
      rw [Lower.emit_run, Except.ok.injEq, Prod.mk.injEq] at hstore
      exact ⟨address, b1, v, b2,
        Typed.Expr.reaches_of_lowerAddress htarget hplace hstarted haddress,
        hvalue, hstore.2.symm⟩
  · cases hwell.body.of_mem_exprs hmem with
    | addressOf _ hinner hplace =>
      unfold Typed.Expr.lower at hlower
      obtain ⟨inner', b1, hinner', hrest⟩ := Lower.bind_eq_ok.mp hlower
      obtain ⟨address, b2, haddress, hdone⟩ := Lower.bind_eq_ok.mp hrest
      cases hdone
      exact ⟨address, rfl, Typed.Expr.reaches_of_lowerAddress hinner hplace hstarted
        (Lower.bind_eq_ok.mpr ⟨inner', b1, hinner', haddress⟩)⟩
  · obtain ⟨hbindings, hapart⟩ := Lowering.binds_code hwell hcode
    have hstarted := Lowering.extends_code hcode
    exact ⟨fun entry hentry => ⟨hbindings entry hentry,
      Builder.reserves_of_mem_slots hstarted hentry⟩,
      Lowering.nodup_slots hcode (accepted_introduced_nodup h hf), hapart⟩

open Plain in
/-- A function that writes to an array in a struct behind a pointer, and gives the address of
another element: `struct shelf { i32[4] boxes; }` and
`i32* fill(shelf* s) { s.boxes[0] = 1; return &s.boxes[1]; }`. -/
def SyntaxTree.shelf : SyntaxTree :=
  let box (i : Nat) : Expr := element (field (name "s") "boxes") i
  { sourceName := "shelf"
    decls := [
      struct "shelf" [param (array (keyword "i32") 4) "boxes"],
      function (pointer (keyword "i32")) "fill" [param (pointer (named "shelf")) "s"]
        [assign (box 0) (number 1), ret (.unary .addressOf (box 1) .nowhere)]] }

/-- Whether the expression takes an address. -/
def Typed.Expr.takesAddress : Typed.Expr → Bool
  | .addressOf _ _ _ => true
  | _ => false

/-- Whether a function assigns to a place in some container and takes an address, and both can be
lowered once its parameters have their slots. -/
def Typed.Function.storesAndPoints (symbols : SymbolTable) (f : Typed.Function) : Bool :=
  match Lowering.params symbols 0 f.params .start with
  | .ok ((), b) => f.body.stmts.any (fun s => s.writesContained && (s.lower symbols none b).isOk) &&
      f.body.exprs.any fun e => e.takesAddress && (e.lower symbols b).isOk
  | .error _ => false

theorem accepted_reach_storage_shelf :
    ∃ p f b target value span b1 ty span' inner op b2,
      (checkProgram false [.shelf]).program = some p ∧ .function f ∈ p.decls ∧
      Lowering.params p.symbols 0 f.params .start = .ok ((), b) ∧
      .assign target value span ∈ f.body.stmts ∧
      (Typed.Stmt.assign target value span).lower p.symbols none b = .ok ((), b1) ∧
      .addressOf ty span' inner ∈ f.body.exprs ∧
      (Typed.Expr.addressOf ty span' inner).lower p.symbols b = .ok (op, b2) ∧
      (∃ address b', target.Reaches p.symbols b address b') ∧
      ∃ address, inner.Reaches p.symbols b address b2 := by
  have htest : ((checkProgram false [.shelf]).program.any fun p => p.decls.any fun decl =>
      decl.function?.any (·.storesAndPoints p.symbols)) = true := by decide +kernel
  obtain ⟨p, hp, hdecls⟩ := (Option.any_eq_true _ _).mp htest
  obtain ⟨decl, hdecl, hfunction⟩ := List.any_eq_true.mp hdecls
  obtain ⟨f, hf, htest⟩ := (Option.any_eq_true _ _).mp hfunction
  obtain rfl : decl = .function f := by
    cases decl with
    | function g => cases hf; rfl
    | _ => cases hf
  unfold Typed.Function.storesAndPoints at htest
  split at htest
  · rename_i b hparams
    simp only [Bool.and_eq_true, List.any_eq_true] at htest
    obtain ⟨⟨stmt, hstmt, hwrites, hstored⟩, e, he, htakes, hpointed⟩ := htest
    obtain ⟨hassign, haddress, -⟩ := accepted_reach_storage hp hdecl
    have hstarted := (Lowering.advances_params p.symbols f.params 0 Builder.isOpen_start hparams).1
    cases stmt with
    | assign target value span =>
      cases e with
      | addressOf ty span' inner =>
        cases hlower : (Typed.Stmt.assign target value span).lower p.symbols none b with
        | error fault => rw [hlower] at hstored; cases hstored
        | ok stored =>
          cases hlower' : (Typed.Expr.addressOf ty span' inner).lower p.symbols b with
          | error fault => rw [hlower'] at hpointed; cases hpointed
          | ok pointed =>
            obtain ⟨address, b', _, _, hreaches, -⟩ :=
              hassign target value span hstmt none b stored.2 hstarted hlower
            obtain ⟨address', -, hreaches'⟩ :=
              haddress ty span' inner he b pointed.1 pointed.2 hstarted hlower'
            exact ⟨p, f, b, target, value, span, stored.2, ty, span', inner, pointed.1, pointed.2,
              hp, hdecl, hparams, hstmt, hlower, he, hlower', ⟨address, b', hreaches⟩,
              address', hreaches'⟩
      | _ => cases htakes
    | _ => cases hwrites
  · cases htest

end Laye
