import Laye.Proofs.Typing.NormalForm
import Laye.Proofs.Typing.Writing

/-!
# Types and literals of checked expressions

An expression is regular (`Typed.Expr.Regular`) if all types in it are in normal form and all
integer literals in it are in the range of their types. Well-typedness asks for neither: a literal
of a width that there is not, or out of range, would be well typed.

Conversions make regular expressions of regular ones and of literals that have no type yet
(`Typed.Expr.Loose`), and so do the rules of the checker (`Context.Regular.rules`). The declared
symbols stay fixed while variables are added, so normal forms are always over the table of the
declarations. -/

namespace Laye

open Typing (bind_eq_ok)

namespace Typed.Expr

/-- An integer literal is in the range of its type, if that is an integer type. -/
def LiteralFits : Expr → Prop
  | .integer ty _ magnitude negative => literalProblem? magnitude negative ty = none
  | _ => True

/-- All types in the expression are in normal form, and all its literals fit. -/
def Regular (table : SymbolTable) (e : Expr) : Prop :=
  ∀ n ∈ e.nodes, n.ty.Normal table false ∧ n.LiteralFits

section

variable {table : SymbolTable} {ty : Ty} {span : Span} {e inner left right : Expr}

theorem regular_iff : e.Regular table ↔ (e.ty.Normal table false ∧ e.LiteralFits) ∧
    ∀ n ∈ e.nodes.tail, n.ty.Normal table false ∧ n.LiteralFits := by
  simp only [Regular, mem_nodes, forall_eq_or_imp]

theorem regular_leaf (hty : e.ty.Normal table false) (hfits : e.LiteralFits)
    (htail : e.nodes.tail = []) : e.Regular table :=
  regular_iff.mpr ⟨⟨hty, hfits⟩, by simp [htail]⟩

theorem regular_over (hty : e.ty.Normal table false) (hfits : e.LiteralFits)
    (htail : e.nodes.tail = inner.nodes) (hinner : inner.Regular table) : e.Regular table :=
  regular_iff.mpr ⟨⟨hty, hfits⟩, htail ▸ hinner⟩

theorem regular_binary {op : BinaryOp} (hty : ty.Normal table false)
    (hleft : left.Regular table) (hright : right.Regular table) :
    (binary ty span op left right).Regular table :=
  regular_iff.mpr ⟨⟨hty, trivial⟩, List.forall_mem_append.mpr ⟨hleft, hright⟩⟩

theorem regular_index (hty : ty.Normal table false) (hleft : left.Regular table)
    (hright : right.Regular table) : (index ty span left right).Regular table :=
  regular_iff.mpr ⟨⟨hty, trivial⟩, List.forall_mem_append.mpr ⟨hleft, hright⟩⟩

theorem regular_invoke {function : SymbolId} {args : List Expr} (hty : ty.Normal table false)
    (hargs : ∀ arg ∈ args, arg.Regular table) : (invoke ty span function args).Regular table := by
  refine regular_iff.mpr ⟨⟨hty, trivial⟩, fun n hn => ?_⟩
  obtain ⟨arg, harg, hn⟩ := mem_nodesAll.mp hn
  exact hargs arg harg n hn

end

/-- A regular expression has a type in normal form. -/
theorem Regular.ty {table : SymbolTable} {e : Expr} (h : e.Regular table) :
    e.ty.Normal table false :=
  (regular_iff.mp h).1.1

/-- What checking makes of an expression: a regular one, or a literal without a type. -/
def Loose (table : SymbolTable) (e : Expr) : Prop := e.Regular table ∨ e.Literal

variable {table : SymbolTable} {e e' : Expr} {target : Ty}

theorem Loose.regular (h : e.Loose table) (htyped : e.ty.isUntyped = false) : e.Regular table := by
  refine h.resolve_right fun hliteral => ?_
  rw [hliteral.isUntyped] at htyped
  cases htyped

theorem Loose.literal (h : e.Loose table) (huntyped : e.ty.isUntyped = true) : e.Literal := by
  refine h.resolve_left fun hregular => ?_
  rw [hregular.ty.isUntyped] at huntyped
  cases huntyped

/-! ### Conversions -/

theorem literalAs_regular (htarget : target.Normal table false) (h : e.literalAs target = .ok e') :
    e'.Regular table := by
  unfold literalAs at h
  split at h
  · split at h
    · cases h
    · rename_i hfits
      cases h
      exact regular_leaf htarget hfits rfl
  · cases h

theorem Regular.castTo (h : e.Regular table) (htarget : target.Normal table false) :
    (e.castTo target).Regular table :=
  regular_over htarget trivial rfl h

theorem Literal.retype_regular (h : e.Literal) (hty : ∀ signed, e.ty ≠ .untypedInt signed)
    (htarget : target.Normal table false) : (e.retype target).Regular table := by
  cases h with
  | integer signed => exact absurd rfl (hty signed)
  | float | bool | string => exact regular_leaf htarget trivial rfl

theorem Literal.toFloat_regular {signed : Bool} (h : e.Literal) (hty : e.ty = .untypedInt signed)
    (htarget : target.Normal table false) : (e.literalToFloat target).Regular table := by
  cases h with
  | integer => exact regular_leaf htarget trivial rfl
  | _ => cases hty

theorem Loose.settle (he : e.Loose table) (h : Settles (Ty.Normal table false) e e') :
    e'.Regular table := by
  obtain ⟨hadjusts, ⟨rfl, htyped⟩ | hty⟩ := h
  · exact he.regular htyped
  · cases hadjusts with
    | same => exact he.regular hty.isUntyped
    | literal _ _ hliteral => exact literalAs_regular (ty_literalAs hliteral ▸ hty) hliteral
    | address _ hliteral => exact (literalAs_regular (.keyword rfl) hliteral).castTo hty
    | toFloat hsource =>
      rw [ty_literalToFloat] at hty
      exact (he.literal (by rw [hsource]; rfl)).toFloat_regular hsource hty
    | retype hfits =>
      rw [ty_retype] at hty
      rcases hfits with ⟨hsource, -⟩ | ⟨hsource, -⟩ | ⟨hsource, -⟩ <;>
        exact (he.literal (by rw [hsource]; rfl)).retype_regular (by simp [hsource]) hty
    | cast hcast => exact (he.regular hcast.isUntyped).castTo hty
    | materialize hslice => exact regular_over hty trivial rfl (he.regular (by rw [hslice]; rfl))

end Typed.Expr

/-! ### Contexts -/

/-- Variables were added to the declarations of the table, and all types are in normal form. -/
structure Context.Regular (table : SymbolTable) (ctx : Context) : Prop where
  extends_table : table.Extends ctx.symbols
  types : ∀ symbol ∈ ctx.symbols, symbol.ty.Normal table false

namespace Context.Regular

variable {ctx : Context} {table : SymbolTable} {ty element : Ty}

theorem symbolAt (h : ctx.Regular table) (hctx : ctx.Sound) {name : String} {id : SymbolId}
    (hid : ctx.scopes.lookup name = some id) : (ctx.symbolAt id).ty.Normal table false := by
  obtain ⟨symbol, hsymbol, -⟩ := hctx.lookup hid
  rw [Context.symbolAt, SymbolTable.symbolAt_eq hsymbol]
  exact h.types symbol (List.mem_of_getElem? hsymbol)

theorem signature (h : ctx.Regular table) {symbol : Symbol} {signature : Signature}
    (hmem : symbol ∈ ctx.symbols) (hsignature : symbol.signature? = some signature) :
    signature.returnType.Normal table false ∧
      ∀ param ∈ signature.params, param.2.Normal table false := by
  have hty := h.types symbol hmem
  unfold Symbol.signature? at hsignature
  split at hsignature
  · rename_i heq
    rw [heq] at hty
    cases hsignature
    cases hty with
    | keyword hty => cases hty
    | function _ hreturn hparams => exact ⟨hreturn, hparams⟩
  · cases hsignature

theorem callee? (h : ctx.Regular table) (hctx : ctx.Sound) {name : String} {id : SymbolId}
    {signature : Signature} (hcallee : ctx.callee? name = some (id, signature)) :
    signature.returnType.Normal table false ∧
      ∀ ty ∈ signature.paramTypes, ty.Normal table false := by
  obtain ⟨_, hsymbol, -, hsignature⟩ := hctx.callee hcallee
  obtain ⟨hreturn, hparams⟩ := h.signature (List.mem_of_getElem? hsymbol) hsignature
  refine ⟨hreturn, fun ty hty => ?_⟩
  obtain ⟨param, hparam, rfl⟩ := List.mem_map.mp hty
  exact hparams param hparam

theorem expand_eq (hty : ty.Normal table false) : ctx.expand ty = ty := by
  cases ty with
  | structRef _ =>
    cases hty with
    | keyword hty => cases hty
  | _ => rfl

section

variable (h : ctx.Regular table) (hctx : ctx.Sound)
include h hctx

theorem expand (hty : ty.Normal table true) : (ctx.expand ty).Normal table false := by
  cases ty with
  | structRef name =>
    cases hty with
    | keyword hty => cases hty
    | structRef hname =>
      have hstruct : ctx.symbols.IsStruct name := h.extends_table.isStruct_eq ▸ hname
      obtain ⟨_, hsome⟩ := Option.isSome_iff_exists.mp hstruct
      rw [hctx.expand name hstruct, SymbolTable.expand, hsome, Option.getD_some]
      obtain ⟨symbol, hfind, rfl⟩ := Option.map_eq_some_iff.mp hsome
      exact h.types symbol (List.mem_of_find?_eq_some hfind)
  | struct =>
    cases hty with
    | keyword hty => cases hty
  | _ => exact hty.moved (by simp) (by simp) false

theorem elementType? (hty : ty.Normal table false)
    (helement : Typing.elementType? ctx ty = some element) : element.Normal table false := by
  cases hty with
  | array _ hinner _ _ =>
    cases helement
    rwa [expand_eq hinner]
  | buffer _ hinner _ | slice _ hinner _ =>
    cases helement
    exact h.expand hctx hinner
  | keyword hty =>
    cases ty with
    | string =>
      cases helement
      exact .keyword (by decide)
    | array | buffer | slice => cases hty
    | _ => cases helement
  | _ => cases helement

theorem pointee {access : Access} (hty : (Ty.pointer element access).Normal table false) :
    (ctx.expand element).Normal table false := by
  cases hty with
  | keyword hty => cases hty
  | pointer _ helement => exact h.expand hctx helement

theorem throughPointer {target : Typed.Expr}
    (htarget : target.Regular table) : (Typing.throughPointer ctx target).Regular table := by
  unfold Typing.throughPointer
  split
  · rename_i hty
    have hpointer := htarget.ty
    rw [hty] at hpointer
    exact Typed.Expr.regular_over (h.pointee hctx hpointer) trivial rfl htarget
  · exact htarget

/-- Being regular follows the rules of the checker. -/
theorem rules :
    Typing.Rules ctx (Ty.Normal table false) (fun _ t => t.Loose table)
      (fun _ t => t.Regular table) where
  chosen ty hty := by
    simp only [Ty.chosen, Ty.defaults, List.cons_append, List.nil_append, List.mem_cons,
      List.not_mem_nil, or_false] at hty
    rcases hty with rfl | rfl | rfl | rfl | rfl | rfl | rfl | rfl | rfl
    case inr.inr.inr.inr.inr.inr.inr.inr => exact .cString
    all_goals exact .keyword rfl
  params hcallee := (h.callee? hctx hcallee).2
  operand ht hinteger := (ht.regular (Ty.isUntyped_of_isInteger hinteger)).ty
  settle := Typed.Expr.Loose.settle
  place ht hplace := by
    -- a literal is no place
    refine ht.resolve_right fun hliteral => ?_
    cases hliteral <;> cases hplace
  loosen := .inl
  integer _ _ _ := .inr (.integer _ _ _ _)
  float _ _ := .inr (.float _ _)
  bool _ _ := .inr (.bool _ _)
  string _ _ := .inr (.string _ _)
  negatedInteger _ _ := .inr (.integer _ _ _ _)
  negatedFloat _ _ := .inr (.float _ _)
  name hid _ := Typed.Expr.regular_leaf (h.symbolAt hctx hid) trivial rfl
  -- a variant of an enum is a literal that no range is asked of
  variant _ hid henum _ := Typed.Expr.regular_leaf (henum ▸ h.symbolAt hctx hid) rfl rfl
  invoke _ hargs hcallee _ := by
    refine Typed.Expr.regular_invoke (h.callee? hctx hcallee).1 fun arg harg => ?_
    obtain ⟨i, hi, rfl⟩ := List.getElem_of_mem harg
    exact hargs.get (hargs.length_eq ▸ hi) hi
  unary _ _ hoperand _ _ := Typed.Expr.regular_over hoperand.ty trivial rfl hoperand
  addressOf _ hoperand _ := Typed.Expr.regular_over (hoperand.ty.pointerTo _) trivial rfl hoperand
  dereference _ hoperand hty :=
    Typed.Expr.regular_over (h.pointee hctx (hty ▸ hoperand.ty)) trivial rfl hoperand
  binary {op _ _ left _} _ hleft hright _ _ := by
    refine Typed.Expr.regular_binary ?_ hleft hright
    unfold BinaryOp.resultType
    split
    · exact .keyword rfl
    · exact hleft.ty
  index _ htarget hi helement _ :=
    Typed.Expr.regular_index (h.elementType? hctx htarget.ty helement) htarget hi
  field _ htarget hstruct hfield _ := by
    have hinner := h.throughPointer hctx htarget
    have hnormal := hinner.ty
    rw [hstruct] at hnormal
    cases hnormal with
    | keyword hty => cases hty
    | struct _ hfields =>
      exact Typed.Expr.regular_over (hfields _ (List.mem_of_getElem? hfield)) trivial rfl hinner

end

end Context.Regular

/-- What checking makes of an expression is regular, or a literal without a type. -/
theorem Expr.check_loose {ctx : Context} {table : SymbolTable} (hctx : ctx.Sound)
    (hregular : ctx.Regular table) (e : Expr) {t : Typed.Expr} (h : e.check ctx = .ok t) :
    t.Loose table :=
  (hregular.rules hctx).check e h

end Laye
