import Laye.Proofs.Typing.Containment

/-!
# Written types mean the same everywhere

A written type is resolved between the declarations, from what is declared
(`Declarations.namesInside`), and inside functions, from the scopes and the symbols
(`Context.typeNames`). The two differ in how they look a name up and in the faults they report.
`Declarations.resolve_typeNames` says that they give the same types: inside a function, a written
type whose name no local scope has means what it means between the declarations, and it is refused
there exactly if it is refused here.
-/

namespace Laye

/-- The name that a written type is built on, unless that is a keyword. -/
def TypeExpr.name? : TypeExpr → Option Ident
  | .builtin _ _ => none
  | .named ident => some ident
  | .pointer element _ _ | .buffer element _ _ | .slice element _ _ | .array element _ _ _ =>
    element.name?

/-- A name means the same: both tables have it as a struct or neither does, and they give it one
type or none. -/
def TypeNames.AgreeOn (names names' : TypeNames) (ident : Ident) : Prop :=
  names.isStruct ident.name = names'.isStruct ident.name ∧
    (names.resolve ident).toOption = (names'.resolve ident).toOption

namespace TypeExpr

variable {names names' : TypeNames}

theorem toOption_bind {ε α β : Type} (x : Except ε α) (f : α → Except ε β) :
    (x >>= f).toOption = x.toOption.bind fun a => (f a).toOption := by
  cases x <;> rfl

theorem toOption_behind (element : TypeExpr)
    (h : ∀ ident ∈ element.name?, names.AgreeOn names' ident)
    (helement : (element.resolve names).toOption = (element.resolve names').toOption) :
    (resolve.behind names element fun _ => element.resolve names).toOption =
      (resolve.behind names' element fun _ => element.resolve names').toOption := by
  have hstruct : namedStruct? names element = namedStruct? names' element := by
    cases element with
    | named ident => simp only [namedStruct?, (h ident rfl).1]
    | _ => rfl
  unfold resolve.behind
  rw [hstruct]
  split
  · rfl
  · exact helement

theorem toOption_resolve (t : TypeExpr) (h : ∀ ident ∈ t.name?, names.AgreeOn names' ident) :
    (t.resolve names).toOption = (t.resolve names').toOption := by
  induction t with
  | builtin _ _ => rfl
  | named ident => exact (h ident rfl).2
  | pointer element access span ih | buffer element access span ih | slice element _ _ ih =>
    simp only [resolve, toOption_bind, toOption_behind element h (ih h)]
  | array _ _ _ _ ih => simp only [resolve, toOption_bind, ih h]

end TypeExpr

namespace Declarations

variable {decls : List TopLevel} {scopes : ScopeStack} {symbols : SymbolTable} {ctx : Context}

theorem named_eq_typeOf {decl : TopLevel} {ident : Ident}
    (hdecl : find? decls ident.name = some decl)
    (htype : (kind decl).isType = true) :
    (namesInside decls []).resolve ident = typeOf decls decl := by
  have hmem : decl ∈ decls := List.mem_of_find?_eq_some hdecl
  have hname : decl.name.name = ident.name := by simpa using List.find?_some hdecl
  cases decl with
  | function _ => cases htype
  | enum _ =>
    unfold namesInside named
    simp only [hdecl]
    rfl
  | struct decl =>
    -- one struct is open, and as many as there are other declarations may still be opened
    obtain ⟨count, hcount⟩ : ∃ count, decls.length = count + 1 :=
      Nat.exists_eq_add_one.mpr (List.length_pos_of_mem hmem)
    change decl.name.name = ident.name at hname
    unfold namesInside named typeOf namesInside
    simp [hdecl, hcount, hname]

theorem agreeOn_typeNames (hdeclare : declare decls = .ok scopes)
    (hpopulate : populate decls = .ok symbols) (hsymbols : symbols <+: ctx.symbols)
    (hglobals : ctx.scopes.globals = scopes.globals) {ident : Ident}
    (hlocal : ∀ scope ∈ ctx.scopes.inner, scope.find? ident.name = none) :
    ctx.typeNames.AgreeOn (namesInside decls []) ident := by
  obtain ⟨-, hnodup, hnames⟩ := declare_eq_ok hdeclare
  have hlookup : ctx.scopes.lookup ident.name = decls.findIdx? (·.name.name == ident.name) := by
    rw [ScopeStack.lookup_eq, List.findSome?_eq_none_iff.mpr hlocal, Option.none_or,
      hglobals, hnames]
  cases hplace : decls.findIdx? (·.name.name == ident.name) with
  | none =>
    have hnone : find? decls ident.name = none := by
      simpa [find?, List.findIdx?_eq_none_iff] using hplace
    rw [hplace] at hlookup
    refine ⟨by simp [Context.typeNames, hlookup, namesInside, isStruct, hnone], ?_⟩
    unfold namesInside named
    simp [Context.typeNames, hlookup, hnone, Except.toOption]
  | some i =>
    obtain ⟨hi, hname, -⟩ := List.findIdx?_eq_some_iff_getElem.mp hplace
    have hfind : find? decls ident.name = some decls[i] := by
      rw [← (by simpa using hname : decls[i].name.name = ident.name)]
      exact find?_of_nodup hnodup (List.getElem_mem hi)
    obtain ⟨symbol, hsymbol, his⟩ := symbol_of_decl hpopulate (List.getElem?_eq_getElem hi)
    have hat : ctx.symbolAt i = symbol := by
      obtain ⟨hlt, rfl⟩ := List.getElem?_eq_some_iff.mp hsymbol
      exact SymbolTable.symbolAt_eq (List.prefix_iff_getElem?.mp hsymbols i hlt)
    rw [hplace] at hlookup
    constructor
    · simp only [Context.typeNames, hlookup, hat, his.kind_eq, namesInside, isStruct, hfind]
      cases decls[i] <;> rfl
    · simp only [Context.typeNames, hlookup, hat, his.kind_eq]
      by_cases htype : (kind decls[i]).isType = true
      · rw [if_pos htype, named_eq_typeOf hfind htype, his.type]
      · rw [if_neg htype]
        cases hdecl : decls[i] with
        | function _ =>
          rw [hdecl] at hfind
          unfold namesInside named
          simp [hfind, Except.toOption]
        | _ => simp [hdecl, kind, SymbolKind.isType] at htype

/-- Inside a function, a written type means what it means between the declarations, or is refused in
both places, unless a local scope has the name it is built on. -/
theorem resolve_typeNames (hdeclare : declare decls = .ok scopes)
    (hpopulate : populate decls = .ok symbols) (hsymbols : symbols <+: ctx.symbols)
    (hglobals : ctx.scopes.globals = scopes.globals) (t : TypeExpr)
    (hlocal : ∀ ident ∈ t.name?, ∀ scope ∈ ctx.scopes.inner, scope.find? ident.name = none) :
    (t.resolve ctx.typeNames).toOption = (t.resolve (namesInside decls [])).toOption :=
  TypeExpr.toOption_resolve t fun ident hident =>
    agreeOn_typeNames hdeclare hpopulate hsymbols hglobals (hlocal ident hident)

/-- Where a local scope has the name `x`, an array of points is what it is outside. -/
theorem resolve_typeNames_nodes :
    ∃ scopes symbols inside, declare nodes = .ok scopes ∧ populate nodes = .ok symbols ∧
      (scopes.push none).add "x" 2 = some inside ∧
      let ctx : Context := ⟨symbols ++ [⟨"x", .binding, .nowhere, .int true⟩], inside⟩
      let t : TypeExpr := .array (.named ⟨"Point", .nowhere⟩) 3 .readWrite .nowhere
      (t.resolve (namesInside nodes [])).isOk = true ∧
        (t.resolve ctx.typeNames).toOption = (t.resolve (namesInside nodes [])).toOption := by
  have hok : (declare nodes).isOk = true ∧ (populate nodes).isOk = true := by decide +kernel
  cases hdeclare : declare nodes with
  | error fault => simp [hdeclare, Except.isOk, Except.toBool] at hok
  | ok scopes =>
    cases hpopulate : populate nodes with
    | error fault => simp [hpopulate, Except.isOk, Except.toBool] at hok
    | ok symbols =>
      refine ⟨scopes, symbols, _, rfl, rfl, rfl, by decide +kernel, ?_⟩
      refine resolve_typeNames hdeclare hpopulate (List.prefix_append _ _) rfl _ ?_
      rintro ident ⟨⟩ scope hscope
      rcases List.mem_cons.mp hscope with rfl | houter
      · rfl
      · rw [(declare_eq_ok hdeclare).1] at houter
        cases houter

end Declarations

end Laye
