import Laye.Proofs.Elaboration.Lexical
import Laye.Proofs.Regular.Program

/-!
# Where constants of enum types come from

An integer constant of an enum type is made for a field access on a name, and for nothing else:
number literals never get such a type. `accepted_variantPlaces` says this of the constants of
accepted programs, place by place. Lexical scoping selects what the name stands for, the type of
that is the enum, and the constant is the value of the variant. What the name stands for need not be
the enum, though: a variable of the enum type will do as well (`checkProgram_hue`). -/

namespace Laye

open Declarations (ofTrees)

namespace Expr

mutual

/-- The expression and all expressions in it. -/
def nodes (e : Expr) : List Expr :=
  e :: match e with
  | .invoke target args _ => target.nodes ++ nodesAll args
  | .unary _ inner _ | .field inner _ _ => inner.nodes
  | .binary _ left right _ | .index left right _ => left.nodes ++ right.nodes
  | _ => []

def nodesAll : List Expr → List Expr
  | [] => []
  | e :: es => e.nodes ++ nodesAll es

end

/-- If the typed expression is a constant of an enum type, it is the value of a variant that is
named in the expression. -/
def NamesVariant (symbols : SymbolTable) (refers : String → SymbolId → Prop) (e : Expr) :
    Typed.Expr → Prop
  | .integer (.enum enumName variants) span magnitude negative =>
    negative = false ∧ ∃ enum ident id, .field (.name enum) ident span ∈ e.nodes ∧
      refers enum.name id ∧ (symbols.symbolAt id).ty = .enum enumName variants ∧
      variants.lookup ident.name = some magnitude
  | _ => True

/-- All constants of enum types in the typed expression are variants that the expression names. -/
def NamesVariants (symbols : SymbolTable) (refers : String → SymbolId → Prop) (e : Expr)
    (t : Typed.Expr) : Prop :=
  ∀ n ∈ t.nodes, e.NamesVariant symbols refers n

variable {symbols : SymbolTable} {refers : String → SymbolId → Prop} {e e' : Expr}
  {t t' : Typed.Expr}

theorem NamesVariants.mono (h : e.NamesVariants symbols refers t) (hnodes : e.nodes ⊆ e'.nodes) :
    e'.NamesVariants symbols refers t := by
  intro n hn
  have hnode := h n hn
  unfold NamesVariant at hnode ⊢
  split at hnode
  · obtain ⟨hsign, enum, ident, id, hfield, hrest⟩ := hnode
    exact ⟨hsign, enum, ident, id, hnodes hfield, hrest⟩
  · trivial

theorem NamesVariants.of_tail (hself : e.NamesVariant symbols refers t)
    (htail : ∀ n ∈ t.nodes.tail, e.NamesVariant symbols refers n) :
    e.NamesVariants symbols refers t := by
  intro n hn
  rcases Typed.Expr.mem_nodes.mp hn with rfl | hn
  · exact hself
  · exact htail n hn

theorem namesVariant_of_ty (h : ∀ enumName variants, t.ty ≠ .enum enumName variants) :
    e.NamesVariant symbols refers t := by
  unfold NamesVariant
  split
  · exact absurd rfl (h _ _)
  · trivial

theorem NamesVariants.adjusts (h : e.NamesVariants symbols refers t) (hadjusts : t.Adjusts t') :
    e.NamesVariants symbols refers t' := by
  cases hadjusts with
  | same => exact h
  | @literal _ _ _ _ hinteger hliteral =>
    obtain ⟨_, _, _, _, rfl, rfl⟩ := Typed.Expr.literalAs_eq_ok hliteral
    refine .of_tail (namesVariant_of_ty fun _ _ hty => ?_) (by simp [Typed.Expr.nodes])
    cases hty
    cases hinteger
  | address _ hliteral =>
    obtain ⟨_, _, _, _, rfl, rfl⟩ := Typed.Expr.literalAs_eq_ok hliteral
    exact .of_tail trivial (NamesVariants.of_tail trivial (by simp [Typed.Expr.nodes]))
  | toFloat =>
    cases t with
    | integer => exact .of_tail trivial (by simp [Typed.Expr.literalToFloat, Typed.Expr.nodes])
    | _ => exact .of_tail trivial h
  | @retype ty hfits =>
    have htail : (t.retype ty).nodes.tail = t.nodes.tail := by
      cases t <;> simp [Typed.Expr.retype, Typed.Expr.nodes]
    refine .of_tail (namesVariant_of_ty fun _ _ hty => ?_) fun n hn =>
      h n (List.mem_of_mem_tail (htail ▸ hn))
    rw [Typed.Expr.ty_retype] at hty
    rcases hfits with ⟨-, rfl | ⟨_, rfl⟩⟩ | ⟨-, rfl⟩ | ⟨-, rfl | rfl⟩ <;> cases hty
  | cast | materialize => exact .of_tail trivial h

theorem NamesVariants.over (h : e.NamesVariants symbols refers t) (hnodes : e.nodes ⊆ e'.nodes)
    (hself : e'.NamesVariant symbols refers t') (htail : t'.nodes.tail = t.nodes) :
    e'.NamesVariants symbols refers t' :=
  .of_tail hself (htail ▸ h.mono hnodes)

theorem NamesVariants.over_two {left right : Expr} {left' right' : Typed.Expr}
    (hleft : left.NamesVariants symbols refers left')
    (hright : right.NamesVariants symbols refers right')
    (hnodes : e'.nodes = e' :: (left.nodes ++ right.nodes))
    (hself : e'.NamesVariant symbols refers t')
    (htail : t'.nodes.tail = left'.nodes ++ right'.nodes) :
    e'.NamesVariants symbols refers t' := by
  refine .of_tail hself fun n hn => ?_
  rw [htail] at hn
  rcases List.mem_append.mp hn with hn | hn
  · exact hleft.mono (by simp [hnodes]) n hn
  · exact hright.mono (by simp [hnodes]) n hn

theorem namesVariant_of_args {args : List Expr} {args' : List Typed.Expr}
    (h : List.Forall₂ (NamesVariants symbols refers) args args')
    (hnodes : nodesAll args ⊆ e.nodes) :
    ∀ n ∈ Typed.Expr.nodesAll args', e.NamesVariant symbols refers n := by
  induction h with
  | nil => simp [Typed.Expr.nodesAll]
  | cons hfirst _ ih =>
    intro n hn
    rw [nodesAll, List.append_subset] at hnodes
    rcases List.mem_append.mp hn with hn | hn
    · exact hfirst.mono hnodes.1 n hn
    · exact ih hnodes.2 n hn

end Expr

theorem Context.ReadAs.rules_variants {ctx : Context} {symbols : SymbolTable}
    {refers : String → SymbolId → Prop} (h : ctx.ReadAs symbols refers) :
    Typing.Rules ctx (fun _ => True) (Expr.NamesVariants symbols refers)
      (Expr.NamesVariants symbols refers) where
  chosen _ _ := trivial
  params _ _ _ := trivial
  operand _ _ := trivial
  settle ht hsettles := ht.adjusts hsettles.1
  place ht _ := ht
  loosen ht := ht
  integer _ _ _ := .of_tail trivial (by simp [Typed.Expr.nodes])
  float _ _ := .of_tail trivial (by simp [Typed.Expr.nodes])
  bool _ _ := .of_tail trivial (by simp [Typed.Expr.nodes])
  string _ _ := .of_tail trivial (by simp [Typed.Expr.nodes])
  negatedInteger _ _ := .of_tail trivial (by simp [Typed.Expr.nodes])
  negatedFloat _ _ := .of_tail trivial (by simp [Typed.Expr.nodes])
  name _ _ := .of_tail trivial (by simp [Typed.Expr.nodes])
  variant span hid henum hvalue := by
    refine .of_tail ⟨rfl, _, _, _, ?_, h.refers _ _ hid, h.symbolAt hid ▸ henum, hvalue⟩
      (by simp [Typed.Expr.nodes])
    simp [Expr.nodes]
  invoke span hargs _ _ :=
    .of_tail trivial (Expr.namesVariant_of_args hargs (by simp [Expr.nodes]))
  unary op span hoperand _ _ := hoperand.over (by simp [Expr.nodes]) trivial rfl
  addressOf span hoperand _ := hoperand.over (by simp [Expr.nodes]) trivial rfl
  dereference span hoperand _ := hoperand.over (by simp [Expr.nodes]) trivial rfl
  binary span hleft hright _ _ := .over_two hleft hright (by simp [Expr.nodes]) trivial rfl
  index span htarget hi _ _ := .over_two htarget hi (by simp [Expr.nodes]) trivial rfl
  field span htarget _ _ _ := by
    unfold Typing.throughPointer
    split
    · exact .of_tail trivial (htarget.over (by simp [Expr.nodes]) trivial rfl)
    · exact htarget.over (by simp [Expr.nodes]) trivial rfl

/-! ### Programs -/

/-- At every place of a function, the constants of enum types are variants that are named there. -/
def TopLevel.NamesVariants (symbols : SymbolTable) (reading : Reading) :
    TopLevel → Typed.Decl → Prop
  | .function decl, .function f =>
    decl.body.Follows symbols (fun s => Expr.NamesVariants symbols (reading s))
      (.ofParams decl.params f.params) f.body
  | _, _ => True

section

variable {keepGoing : Bool} {trees : List SyntaxTree} {p : Typed.Program}
  (h : (checkProgram keepGoing trees).program = some p)
include h

theorem accepted_enum {symbol : Symbol} (hsymbol : symbol ∈ p.symbols) {name : String}
    {variants : List (String × Nat)} (hty : symbol.ty = .enum name variants) :
    ∃ decl, .enum decl ∈ ofTrees trees ∧ decl.name.name = name ∧
      Declarations.enumType decl = .ok (.enum name variants) := by
  have hnormal := (accepted_regular h).1 symbol hsymbol
  rw [hty] at hnormal
  cases hnormal with
  | keyword hkeyword => cases hkeyword
  | enum hdefines =>
    obtain ⟨enum, henum, hkind, hname⟩ := hdefines.found
    obtain ⟨_, top, htop, -, his⟩ :=
      (accepted_places h).top_of_symbol henum (by simp [hkind])
    have htype := his.type
    rw [hdefines.type_eq enum henum hkind hname] at htype
    cases top with
    | enum decl => exact ⟨decl, List.mem_of_getElem? htop, his.name_eq.symm.trans hname, htype⟩
    | _ => cases hkind.symm.trans his.kind_eq

theorem accepted_namesVariants :
    List.Forall₂ (TopLevel.NamesVariants p.symbols (.lexical (ofTrees trees)))
      (ofTrees trees) p.decls := by
  obtain ⟨globals, symbols, _, decls, ctx, hdeclare, hpopulate, hchecked, rfl⟩ :=
    checkProgram_eq_some h
  have hstarts : Declarations.Starts (ofTrees trees) ⟨symbols, globals⟩ :=
    ⟨hdeclare, hpopulate⟩
  have hsound := Declarations.sound_context hdeclare hpopulate
  rw [Typed.Program.decls, Typing.flatMap_roots (Typing.decls_checksTo hchecked).1]
  refine (Typing.decls_forall₂ (Q := fun symbols => TopLevel.NamesVariants symbols _) hstarts ?_
    ⟨rfl, .refl _, hsound⟩ List.drop_zero hchecked).2.2
  intro ctx id top d st hctx htop hdecl symbols hsymbols
  cases top with
  | function _ =>
    obtain ⟨f, rfl, hrun, hinner, hfunction⟩ := Typing.decl_function hstarts hctx htop hdecl
    obtain ⟨-, -, -, -, -, hbody⟩ :=
      Typing.function_follows hrun hctx.sound hinner hfunction hsymbols
    have hallows := Reading.lexical_allows hdeclare symbols
    rw [← show ctx.scopes = globals from hctx.scopes_eq] at hallows
    exact hbody fun _ _ _ hs hsymbols =>
      Context.ReadAs.rules_variants ⟨hs.inside.sound, hsymbols, hallows hs hsymbols⟩
  | _ => trivial

end

/-- In an accepted program, every integer constant of an enum type is the value of a variant. At the
same place of the text there is a field access on a name, lexical scoping selects something of the
enum's type for that name, and the constant is the value that the declaration of the enum gives to
the variant. Wherever a name stands for something of an enum type, be it the enum or a variable, a
field access on it is a constant, or an error if there is no such variant. -/
theorem accepted_variantPlaces {keepGoing : Bool} {trees : List SyntaxTree} {p : Typed.Program}
    (h : (checkProgram keepGoing trees).program = some p) :
    List.Forall₂ (TopLevel.NamesVariants p.symbols (.lexical (ofTrees trees)))
      (ofTrees trees) p.decls ∧
    (∀ symbol ∈ p.symbols, ∀ name variants, symbol.ty = .enum name variants →
      ∃ decl, .enum decl ∈ ofTrees trees ∧ decl.name.name = name ∧
        Declarations.enumType decl = .ok (.enum name variants)) ∧
    ∀ (ctx : Context) (enum ident : Ident) (span : Span) (id : SymbolId) (name : String)
      (variants : List (String × Nat)), ctx.scopes.lookup enum.name = some id →
      (ctx.symbolAt id).ty = .enum name variants →
      (Expr.field (.name enum) ident span).check ctx =
        (variants.lookup ident.name).elim
          (.error ⟨ident.span, .unknownVariant enum.name ident.name⟩)
          fun value => .ok (.integer (.enum name variants) span value false) := by
  refine ⟨accepted_namesVariants h, fun _ hsymbol _ _ hty => accepted_enum h hsymbol hty, ?_⟩
  intro ctx enum ident span id name variants hid hty
  simp only [Expr.check, Typing.enumVariant?, hid, hty]
  cases variants.lookup ident.name <;> rfl

theorem accepted_variantPlaces_lamp :
    ∃ p, (checkProgram false [.lamp]).program = some p ∧
      List.Forall₂ (TopLevel.NamesVariants p.symbols (.lexical (ofTrees [.lamp])))
        (ofTrees [.lamp]) p.decls := by
  have haccepted : (checkProgram false [.lamp]).program.isSome = true := by decide +kernel
  obtain ⟨p, hp⟩ := Option.isSome_iff_exists.mp haccepted
  exact ⟨p, hp, (accepted_variantPlaces hp).1⟩

open Plain in
/-- A variant that is named through a parameter: `enum color { red }` and
`color f(color c) { return c.red; }`. -/
def SyntaxTree.hue : SyntaxTree :=
  { sourceName := "hue"
    decls := [
      enum "color" [("red", none)],
      function (named "color") "f" [param (named "color") "c"] [ret (field (name "c") "red")]] }

/-- Whether the expression is a constant of an enum type. -/
def Typed.Expr.isVariant : Typed.Expr → Bool
  | .integer (.enum _ _) _ _ _ => true
  | _ => false

theorem checkProgram_hue :
    ∃ p f, (checkProgram false [.hue]).program = some p ∧ .function f ∈ p.decls ∧
      f.body.exprs.any Typed.Expr.isVariant = true :=
  exists_function_of_any (by decide +kernel)

end Laye
