import Laye.Proofs.Typing.Declarations

/-!
# Trees and contexts that differ in places and ids only

When a declaration moves, its spans change and so do the ids of its symbols. A `SpanMap` says how
spans move, and `Expr.respan` and its like move those of a syntax tree. To forget them all is a way
to move them too, and leaves the bare tree (`TopLevel.bare`). A relation `ρ` between ids says which
symbols of two runs stand for each other: `Typed.Expr.Alike g ρ` and `Typed.Stmt.Alike g ρ` relate
typed trees that are the same but for spans that `g` moves and for ids that `ρ` relates, and
`Context.Alike ρ` relates contexts in which names stand for related symbols. `SameOutcome g` says of
two computations that both give related results or both fail, for one reason and at places that `g`
takes to each other; it is kept by sequencing. -/

namespace Laye

/-! ### Syntax trees with other spans -/

/-- A way to move spans, which takes the span of two to the span of both. -/
structure SpanMap where
  move : Span → Span
  combine : ∀ a b : Span, move (a.combine b) = (move a).combine (move b)

namespace SpanMap

instance : CoeFun SpanMap fun _ => Span → Span := ⟨move⟩

/-- All spans stay. -/
def stay : SpanMap := ⟨id, fun _ _ => rfl⟩

/-- All spans are forgotten. -/
def forget : SpanMap := ⟨fun _ => .nowhere, fun _ _ => rfl⟩

@[simp] theorem stay_apply (span : Span) : stay span = span := rfl

@[simp] theorem forget_apply (span : Span) : forget span = .nowhere := rfl

end SpanMap

/-- The name at another place. -/
def Ident.respan (g : SpanMap) (ident : Ident) : Ident := ⟨ident.name, g ident.span⟩

def TypeExpr.respan (g : SpanMap) : TypeExpr → TypeExpr
  | .builtin keyword span => .builtin keyword (g span)
  | .named ident => .named (ident.respan g)
  | .pointer element access span => .pointer (element.respan g) access (g span)
  | .buffer element access span => .buffer (element.respan g) access (g span)
  | .slice element access span => .slice (element.respan g) access (g span)
  | .array element capacity access span => .array (element.respan g) capacity access (g span)

mutual

def Expr.respan (g : SpanMap) : Expr → Expr
  | .integer value signed span => .integer value signed (g span)
  | .float value span => .float value (g span)
  | .bool value span => .bool value (g span)
  | .string value span => .string value (g span)
  | .name ident => .name (ident.respan g)
  | .invoke target args span => .invoke (target.respan g) (Expr.respanAll g args) (g span)
  | .unary op operand span => .unary op (operand.respan g) (g span)
  | .binary op left right span => .binary op (left.respan g) (right.respan g) (g span)
  | .index target i span => .index (target.respan g) (i.respan g) (g span)
  | .field target ident span => .field (target.respan g) (ident.respan g) (g span)

def Expr.respanAll (g : SpanMap) : List Expr → List Expr
  | [] => []
  | e :: es => e.respan g :: Expr.respanAll g es

end

mutual

def Stmt.respan (g : SpanMap) : Stmt → Stmt
  | .block stmts span => .block (Stmt.respanAll g stmts) (g span)
  | .binding ty ident value span =>
    .binding (ty.map (TypeExpr.respan g)) (ident.respan g) (value.map (Expr.respan g)) (g span)
  | .expression value => .expression (value.respan g)
  | .ret value span => .ret (value.map (Expr.respan g)) (g span)
  | .assign target value span => .assign (target.respan g) (value.respan g) (g span)
  | .conditional condition thenBody elseBody span =>
    .conditional (condition.respan g) (thenBody.respan g) (Stmt.respanElse g elseBody) (g span)
  | .whileLoop condition body elseBody span =>
    .whileLoop (condition.respan g) (body.respan g) (Stmt.respanElse g elseBody) (g span)
  | .breakLoop span => .breakLoop (g span)
  | .continueLoop span => .continueLoop (g span)
  | .yield value span => .yield (value.map (Expr.respan g)) (g span)

def Stmt.respanAll (g : SpanMap) : List Stmt → List Stmt
  | [] => []
  | stmt :: rest => stmt.respan g :: Stmt.respanAll g rest

def Stmt.respanElse (g : SpanMap) : Option Stmt → Option Stmt
  | none => none
  | some stmt => some (stmt.respan g)

end

def Param.respan (g : SpanMap) (param : Param) : Param :=
  ⟨param.ty.respan g, param.name.respan g, g param.span⟩

def Modifier.respan (g : SpanMap) : Modifier → Modifier
  | .foreign library span => .foreign library (g span)
  | .convention c span => .convention c (g span)

def FunctionBody.respan (g : SpanMap) : FunctionBody → FunctionBody
  | .empty span => .empty (g span)
  | .block stmts span => .block (Stmt.respanAll g stmts) (g span)
  | .expression value => .expression (value.respan g)

def FunctionDecl.respan (g : SpanMap) (decl : FunctionDecl) : FunctionDecl :=
  ⟨decl.modifiers.map (Modifier.respan g), decl.returnType.respan g, decl.name.respan g,
    decl.params.map (Param.respan g), decl.varArgs, decl.body.respan g, g decl.span⟩

def StructDecl.respan (g : SpanMap) (decl : StructDecl) : StructDecl :=
  ⟨decl.name.respan g, decl.fields.map (Param.respan g), g decl.span⟩

def EnumVariant.respan (g : SpanMap) (variant : EnumVariant) : EnumVariant :=
  ⟨variant.name.respan g, variant.value⟩

def EnumDecl.respan (g : SpanMap) (decl : EnumDecl) : EnumDecl :=
  ⟨decl.name.respan g, decl.variants.map (EnumVariant.respan g), g decl.span⟩

def TopLevel.respan (g : SpanMap) : TopLevel → TopLevel
  | .function decl => .function (decl.respan g)
  | .struct decl => .struct (decl.respan g)
  | .enum decl => .enum (decl.respan g)

/-- The declaration without spans: all that is left when it is forgotten where it stands. -/
def TopLevel.bare (top : TopLevel) : TopLevel := top.respan .forget

@[simp] theorem TopLevel.name_bare (top : TopLevel) : top.bare.name.name = top.name.name := by
  cases top <;> rfl

@[simp] theorem Declarations.kind_bare (top : TopLevel) : kind top.bare = kind top := by
  cases top <;> rfl

variable (g : SpanMap) (t : TypeExpr)

/-! Spans that stay give the tree itself. -/

theorem TypeExpr.respan_stay : t.respan .stay = t := by
  induction t <;> simp_all [respan, Ident.respan]

mutual

theorem Expr.respan_stay : (e : Expr) → e.respan .stay = e
  | .integer _ _ _ | .float _ _ | .bool _ _ | .string _ _ | .name _ => rfl
  | .invoke target args _ => by simp [respan, respan_stay target, respanAll_stay args]
  | .unary _ operand _ => by simp [respan, respan_stay operand]
  | .binary _ left right _ | .index left right _ => by
    simp [respan, respan_stay left, respan_stay right]
  | .field target _ _ => by simp [respan, Ident.respan, respan_stay target]

theorem Expr.respanAll_stay : (es : List Expr) → respanAll .stay es = es
  | [] => rfl
  | e :: es => by simp [respanAll, respan_stay e, respanAll_stay es]

end

mutual

theorem Stmt.respan_stay : (stmt : Stmt) → stmt.respan .stay = stmt
  | .block stmts _ => by simp [respan, respanAll_stay stmts]
  | .conditional _ body elseBody _ | .whileLoop _ body elseBody _ => by
    simp [respan, Expr.respan_stay, respan_stay body, respanElse_stay elseBody]
  | .breakLoop _ | .continueLoop _ => rfl
  | .binding _ _ _ _ | .expression _ | .ret _ _ | .assign _ _ _ | .yield _ _ => by
    simp [respan, Ident.respan, funext TypeExpr.respan_stay, funext Expr.respan_stay]

theorem Stmt.respanAll_stay : (stmts : List Stmt) → respanAll .stay stmts = stmts
  | [] => rfl
  | stmt :: rest => by simp [respanAll, respan_stay stmt, respanAll_stay rest]

theorem Stmt.respanElse_stay : (elseBody : Option Stmt) → respanElse .stay elseBody = elseBody
  | none => rfl
  | some stmt => by simp [respanElse, respan_stay stmt]

end

/-- Spans that stay where they are change no declaration. -/
theorem FunctionDecl.respan_stay (decl : FunctionDecl) : decl.respan .stay = decl := by
  have hmodifiers : Modifier.respan .stay = id := funext fun m => by cases m <;> rfl
  have hparams : Param.respan .stay = id := funext fun param => by
    simp [Param.respan, Ident.respan, TypeExpr.respan_stay]
  have hbody : decl.body.respan .stay = decl.body := by
    cases decl.body <;> simp [FunctionBody.respan, Stmt.respanAll_stay, Expr.respan_stay]
  simp [respan, hmodifiers, hparams, hbody, Ident.respan, TypeExpr.respan_stay]

/-! The span of a moved tree is the moved one. -/

@[simp] theorem Ident.name_respan (ident : Ident) : (ident.respan g).name = ident.name := rfl

@[simp] theorem EnumVariant.value_respan (variant : EnumVariant) :
    (variant.respan g).value = variant.value := rfl

theorem TypeExpr.span_respan : (t.respan g).span = g t.span := by
  cases t <;> rfl

theorem Expr.span_respan (e : Expr) : (e.respan g).span = g e.span := by
  cases e <;> rfl

theorem Stmt.span_respan (stmt : Stmt) : (stmt.respan g).span = g stmt.span := by
  cases stmt with
  | expression value => exact value.span_respan g
  | _ => rfl

theorem Stmt.respanAll_eq (stmts : List Stmt) : respanAll g stmts = stmts.map (respan g) := by
  induction stmts with
  | nil => rfl
  | cons _ _ ih => rw [respanAll, ih, List.map_cons]

/-! ### Outcomes -/

/-- Related options are both missing, or both there and related. -/
theorem rel_cases {α β : Type} {R : α → β → Prop} {x : Option α} {y : Option β}
    (h : Option.Rel R x y) :
    (x = none ∧ y = none) ∨ ∃ a b, x = some a ∧ y = some b ∧ R a b := by
  cases h with
  | none => exact .inl ⟨rfl, rfl⟩
  | some hab => exact .inr ⟨_, _, rfl, rfl, hab⟩

/-- Errors that say where something went wrong. -/
class Located (ε : Type) where
  respan : SpanMap → ε → ε

instance : Located Fault := ⟨fun g fault => ⟨g fault.span, fault.problem⟩⟩

/-- Both computations give results that are related, or both fail, for one reason and at places that
`g` takes to each other. -/
def SameOutcome {ε α β : Type} [Located ε] (g : SpanMap) (R : α → β → Prop) :
    Except ε α → Except ε β → Prop
  | .ok a, .ok b => R a b
  | .error e, .error e' => e' = Located.respan g e
  | _, _ => False

namespace SameOutcome

variable {ε α β γ δ : Type} [Located ε] {g : SpanMap} {R : α → β → Prop} {S : γ → δ → Prop}
  {x : Except ε α} {y : Except ε β}

variable {f : α → Except ε γ}

/-- Steps with the same outcome have it one after another. -/
theorem bind {f' : β → Except ε δ} (h : SameOutcome g R x y)
    (hnext : ∀ a b, R a b → SameOutcome g S (f a) (f' b)) :
    SameOutcome g S (x >>= f) (y >>= f') := by
  cases x with
  | error _ =>
    cases y with
    | error _ => exact h
    | ok _ => exact h.elim
  | ok a =>
    cases y with
    | error _ => exact h.elim
    | ok b => exact hnext a b h

theorem bind_eq {x y : Except ε α} {f' : α → Except ε δ} (h : SameOutcome g Eq x y)
    (hnext : ∀ a, SameOutcome g S (f a) (f' a)) : SameOutcome g S (x >>= f) (y >>= f') :=
  h.bind fun a _ hab => hab ▸ hnext a

theorem ite {c c' : Prop} [Decidable c] [Decidable c'] {x' : Except ε α} {y' : Except ε β}
    (hc : c ↔ c') (hthen : SameOutcome g R x y) (helse : SameOutcome g R x' y') :
    SameOutcome g R (if c then x else x') (if c' then y else y') := by
  by_cases h : c
  · rwa [if_pos h, if_pos (hc.mp h)]
  · rwa [if_neg h, if_neg (mt hc.mpr h)]

/-- Where one accepts, so does the other, with a related result. -/
theorem exists_right (h : SameOutcome g R x y) {a : α} (hx : x = .ok a) :
    ∃ b, y = .ok b ∧ R a b := by
  subst hx
  cases y with
  | error _ => exact h.elim
  | ok b => exact ⟨b, rfl, h⟩

theorem exists_left (h : SameOutcome g R x y) {b : β} (hy : y = .ok b) :
    ∃ a, x = .ok a ∧ R a b := by
  subst hy
  cases x with
  | error _ => exact h.elim
  | ok a => exact ⟨a, rfl, h⟩

end SameOutcome

/-! ### Typed trees -/

/-- The relation pairs ids off: it relates an id to one id at most, either way. -/
def PairsOff (ρ : SymbolId → SymbolId → Prop) : Prop :=
  ∀ ⦃a a' b b'⦄, ρ a a' → ρ b b' → (a = b ↔ a' = b')

namespace Typed

/-- The expressions are the same, but for spans that `g` moves and ids that `ρ` relates. -/
inductive Expr.Alike (g : SpanMap) (ρ : SymbolId → SymbolId → Prop) : Expr → Expr → Prop where
  | integer (ty : Ty) (span : Span) (magnitude : Nat) (negative : Bool) :
      Alike g ρ (.integer ty span magnitude negative) (.integer ty (g span) magnitude negative)
  | float (ty : Ty) (span : Span) (value : Float) :
      Alike g ρ (.float ty span value) (.float ty (g span) value)
  | bool (ty : Ty) (span : Span) (value : Bool) :
      Alike g ρ (.bool ty span value) (.bool ty (g span) value)
  | string (ty : Ty) (span : Span) (value : String) :
      Alike g ρ (.string ty span value) (.string ty (g span) value)
  | load (ty : Ty) (span : Span) {id id' : SymbolId} (hid : ρ id id') :
      Alike g ρ (.load ty span id) (.load ty (g span) id')
  | cast (ty : Ty) (span : Span) {inner inner' : Expr} (hinner : Alike g ρ inner inner') :
      Alike g ρ (.cast ty span inner) (.cast ty (g span) inner')
  | materialize (ty : Ty) (span : Span) {inner inner' : Expr}
      (hinner : Alike g ρ inner inner') :
      Alike g ρ (.materialize ty span inner) (.materialize ty (g span) inner')
  | invoke (ty : Ty) (span : Span) {function function' : SymbolId} {args args' : List Expr}
      (hfunction : ρ function function') (hargs : List.Forall₂ (Alike g ρ) args args') :
      Alike g ρ (.invoke ty span function args) (.invoke ty (g span) function' args')
  | unary (ty : Ty) (span : Span) (op : UnaryOp) {operand operand' : Expr}
      (hoperand : Alike g ρ operand operand') :
      Alike g ρ (.unary ty span op operand) (.unary ty (g span) op operand')
  | binary (ty : Ty) (span : Span) (op : BinaryOp) {left left' right right' : Expr}
      (hleft : Alike g ρ left left') (hright : Alike g ρ right right') :
      Alike g ρ (.binary ty span op left right) (.binary ty (g span) op left' right')
  | addressOf (ty : Ty) (span : Span) {inner inner' : Expr} (hinner : Alike g ρ inner inner') :
      Alike g ρ (.addressOf ty span inner) (.addressOf ty (g span) inner')
  | dereference (ty : Ty) (span : Span) {inner inner' : Expr}
      (hinner : Alike g ρ inner inner') :
      Alike g ρ (.dereference ty span inner) (.dereference ty (g span) inner')
  | index (ty : Ty) (span : Span) {target target' i i' : Expr}
      (htarget : Alike g ρ target target') (hi : Alike g ρ i i') :
      Alike g ρ (.index ty span target i) (.index ty (g span) target' i')
  | field (ty : Ty) (span : Span) {target target' : Expr} (name : String) (place : Nat)
      (htarget : Alike g ρ target target') :
      Alike g ρ (.field ty span target name place) (.field ty (g span) target' name place)

/-- The statements are the same, but for spans that `g` moves and ids that `ρ` relates. -/
inductive Stmt.Alike (g : SpanMap) (ρ : SymbolId → SymbolId → Prop) : Stmt → Stmt → Prop where
  | block (span : Span) {stmts stmts' : List Stmt}
      (hstmts : List.Forall₂ (Alike g ρ) stmts stmts') :
      Alike g ρ (.block stmts span) (.block stmts' (g span))
  | binding (span : Span) {symbol symbol' : SymbolId} {value value' : Option Expr}
      (hsymbol : ρ symbol symbol') (hvalue : Option.Rel (Expr.Alike g ρ) value value') :
      Alike g ρ (.binding symbol value span) (.binding symbol' value' (g span))
  | expression {value value' : Expr} (hvalue : value.Alike g ρ value') :
      Alike g ρ (.expression value) (.expression value')
  | ret (span : Span) {value value' : Option Expr}
      (hvalue : Option.Rel (Expr.Alike g ρ) value value') :
      Alike g ρ (.ret value span) (.ret value' (g span))
  | assign (span : Span) {target target' value value' : Expr}
      (htarget : target.Alike g ρ target') (hvalue : value.Alike g ρ value') :
      Alike g ρ (.assign target value span) (.assign target' value' (g span))
  | conditional (span : Span) {condition condition' : Expr} {thenBody thenBody' : Stmt}
      {elseBody elseBody' : Option Stmt} (hcondition : condition.Alike g ρ condition')
      (hthen : Alike g ρ thenBody thenBody') (helse : Option.Rel (Alike g ρ) elseBody elseBody') :
      Alike g ρ (.conditional condition thenBody elseBody span)
        (.conditional condition' thenBody' elseBody' (g span))
  | whileLoop (span : Span) {condition condition' : Expr} {body body' : Stmt}
      {elseBody elseBody' : Option Stmt} (hcondition : condition.Alike g ρ condition')
      (hbody : Alike g ρ body body') (helse : Option.Rel (Alike g ρ) elseBody elseBody') :
      Alike g ρ (.whileLoop condition body elseBody span)
        (.whileLoop condition' body' elseBody' (g span))
  | breakLoop (span : Span) : Alike g ρ (.breakLoop span) (.breakLoop (g span))
  | continueLoop (span : Span) : Alike g ρ (.continueLoop span) (.continueLoop (g span))
  | yield (span : Span) {value value' : Option Expr}
      (hvalue : Option.Rel (Expr.Alike g ρ) value value') :
      Alike g ρ (.yield value span) (.yield value' (g span))
  | deadCode (span : Span) {stmts stmts' : List Stmt}
      (hstmts : List.Forall₂ (Alike g ρ) stmts stmts') :
      Alike g ρ (.deadCode stmts span) (.deadCode stmts' (g span))

/-- The bodies are the same, but for spans that `g` moves and ids that `ρ` relates. -/
inductive Body.Alike (g : SpanMap) (ρ : SymbolId → SymbolId → Prop) : Body → Body → Prop where
  | empty : Alike g ρ .empty .empty
  | block (span : Span) {stmts stmts' : List Stmt}
      (hstmts : List.Forall₂ (Stmt.Alike g ρ) stmts stmts') :
      Alike g ρ (.block stmts span) (.block stmts' (g span))
  | expression {value value' : Expr} (hvalue : value.Alike g ρ value') :
      Alike g ρ (.expression value) (.expression value')

/-- The functions are the same, but for spans that `g` moves and ids that `ρ` relates. -/
structure Function.Alike (g : SpanMap) (ρ : SymbolId → SymbolId → Prop) (f f' : Function) :
    Prop where
  symbol : ρ f.symbol f'.symbol
  name_eq : f.name = f'.name
  nameSpan_eq : f'.nameSpan = g f.nameSpan
  params : List.Forall₂ ρ f.params f'.params
  library_eq : f.library = f'.library
  body : f.body.Alike g ρ f'.body

/-- The declarations are the same, but for spans that `g` moves and ids that `ρ` relates. -/
inductive Decl.Alike (g : SpanMap) (ρ : SymbolId → SymbolId → Prop) : Decl → Decl → Prop where
  | struct (span : Span) {id id' : SymbolId} (hid : ρ id id') :
      Alike g ρ (.struct id span) (.struct id' (g span))
  | enum (span : Span) {id id' : SymbolId} (hid : ρ id id') :
      Alike g ρ (.enum id span) (.enum id' (g span))
  | function {f f' : Function} (hf : f.Alike g ρ f') : Alike g ρ (.function f) (.function f')

namespace Expr.Alike

variable {g : SpanMap} {ρ : SymbolId → SymbolId → Prop} {e e' : Expr}

/-- Expressions that are alike have one type. -/
theorem ty_eq (h : e.Alike g ρ e') : e.ty = e'.ty := by
  cases h <;> rfl

theorem span_eq (h : e.Alike g ρ e') : e'.span = g e.span := by
  cases h <;> rfl

/-- The same problem is reported at both, each at its own span. -/
theorem fault (h : e.Alike g ρ e') {α β : Type} {R : α → β → Prop} (problem : Problem) :
    SameOutcome g R (e.fault problem) (e'.fault problem) :=
  congrArg (Fault.mk · problem) h.span_eq

end Expr.Alike

/-! ### Contexts -/

end Typed

/-- The symbols have one name, one kind and one type. -/
structure Symbol.Alike (s s' : Symbol) : Prop where
  name_eq : s.name = s'.name
  kind_eq : s.kind = s'.kind
  ty_eq : s.ty = s'.ty

theorem Symbol.Alike.signature?_eq {s s' : Symbol} (h : s.Alike s') :
    s.signature? = s'.signature? := by
  rw [Symbol.signature?, Symbol.signature?, h.kind_eq, h.ty_eq]

/-- Related ids are those of symbols that are alike, and so are the ids beyond the tables. -/
structure SymbolTable.Alike (ρ : SymbolId → SymbolId → Prop) (symbols symbols' : SymbolTable) :
    Prop where
  symbol : ∀ id id', ρ id id' → (symbols.symbolAt id).Alike (symbols'.symbolAt id')
  fresh : ∀ k, ρ (symbols.length + k) (symbols'.length + k)

variable {id id' : SymbolId} {ρ : SymbolId → SymbolId → Prop} {scopes scopes' : ScopeStack}

theorem SymbolTable.symbolAt_concat {symbols : SymbolTable} {symbol : Symbol}
    (h : ¬id = symbols.length) :
    SymbolTable.symbolAt (symbols ++ [symbol]) id = symbols.symbolAt id := by
  simp only [SymbolTable.symbolAt, List.getD_eq_getElem?_getD]
  rcases Nat.lt_or_gt_of_ne h with hlt | hgt
  · rw [List.getElem?_append_left hlt]
  · rw [List.getElem?_eq_none (Nat.le_of_lt hgt), List.getElem?_eq_none]
    rw [List.length_append]
    exact hgt

theorem SymbolTable.symbolAt_add (symbols : SymbolTable) (k : Nat) :
    symbols.symbolAt (symbols.length + k) = default := by
  rw [SymbolTable.symbolAt, List.getD_eq_getElem?_getD,
    List.getElem?_eq_none (Nat.le_add_right _ _)]
  rfl

/-- In both scopes a name stands for related symbols or for none. -/
structure Scope.Alike (ρ : SymbolId → SymbolId → Prop) (scope scope' : Scope) : Prop where
  names : ∀ name, Option.Rel ρ (scope.find? name) (scope'.find? name)
  function : Option.Rel ρ scope.function scope'.function

/-- The scopes are alike, one by one. -/
structure ScopeStack.Alike (ρ : SymbolId → SymbolId → Prop) (scopes scopes' : ScopeStack) :
    Prop where
  inner : List.Forall₂ (Scope.Alike ρ) scopes.inner scopes'.inner
  globals : scopes.globals.Alike ρ scopes'.globals

/-- Names stand for related symbols. -/
structure Context.Alike (ρ : SymbolId → SymbolId → Prop) (ctx ctx' : Context) : Prop where
  symbols : ctx.symbols.Alike ρ ctx'.symbols
  scopes : ctx.scopes.Alike ρ ctx'.scopes

theorem Scope.Alike.insert {scope scope' : Scope} (h : scope.Alike ρ scope') (hid : ρ id id')
    (name : String) : (scope.insert name id).Alike ρ (scope'.insert name id') := by
  refine ⟨fun other => ?_, h.function⟩
  rw [Scope.find?_insert, Scope.find?_insert]
  split
  · exact .some hid
  · exact h.names other

theorem ScopeStack.Alike.current (h : scopes.Alike ρ scopes') :
    scopes.current.Alike ρ scopes'.current := by
  have hinner := h.inner
  unfold ScopeStack.current
  generalize scopes.inner = inner, scopes'.inner = inner' at hinner
  cases hinner with
  | nil => exact h.globals
  | cons hscope _ => exact hscope

theorem ScopeStack.Alike.add (h : scopes.Alike ρ scopes') (name : String) (hid : ρ id id') :
    Option.Rel (ScopeStack.Alike ρ) (scopes.add name id) (scopes'.add name id') := by
  unfold ScopeStack.add
  rcases rel_cases (h.current.names name) with ⟨hx, hy⟩ | ⟨_, _, hx, hy, -⟩
  · rw [hx, hy]
    obtain ⟨inner, globals, _⟩ := scopes
    obtain ⟨_, _, _⟩ := scopes'
    cases h.inner with
    | nil => exact .some ⟨.nil, h.globals.insert hid name⟩
    | cons hscope houter => exact .some ⟨.cons (hscope.insert hid name) houter, h.globals⟩
  · rw [hx, hy]
    exact .none

namespace Context.Alike

variable {ρ : SymbolId → SymbolId → Prop} {ctx ctx' : Context}

section

variable (h : ctx.Alike ρ ctx')
include h

/-- Related ids have symbols that are alike. -/
theorem symbolAt {id id' : SymbolId} (hid : ρ id id') :
    (ctx.symbolAt id).Alike (ctx'.symbolAt id') :=
  h.symbols.symbol id id' hid

theorem lookupGlobal (name : String) :
    Option.Rel ρ (ctx.scopes.lookupGlobal name) (ctx'.scopes.lookupGlobal name) :=
  h.scopes.globals.names name

/-- A name is found in both contexts, as related ids, or in neither. -/
theorem lookup (name : String) :
    Option.Rel ρ (ctx.scopes.lookup name) (ctx'.scopes.lookup name) := by
  have hinner : ∀ {scopes scopes' : List Scope}, List.Forall₂ (Scope.Alike ρ) scopes scopes' →
      Option.Rel ρ (scopes.findSome? (·.find? name)) (scopes'.findSome? (·.find? name)) := by
    intro scopes scopes' hscopes
    induction hscopes with
    | nil => exact .none
    | cons hscope _ ih =>
      rw [List.findSome?_cons, List.findSome?_cons]
      rcases rel_cases (hscope.names name) with ⟨hx, hy⟩ | ⟨_, _, hx, hy, hid⟩
      · rw [hx, hy]
        exact ih
      · rw [hx, hy]
        exact .some hid
  rw [ScopeStack.lookup_eq, ScopeStack.lookup_eq]
  rcases rel_cases (hinner h.scopes.inner) with ⟨hx, hy⟩ | ⟨_, _, hx, hy, hid⟩
  · rw [hx, hy]
    exact h.scopes.globals.names name
  · rw [hx, hy]
    exact .some hid

/-- A reference to a struct stands for the same type in both. -/
theorem expand_eq (ty : Ty) : ctx.expand ty = ctx'.expand ty := by
  cases ty with
  | structRef name =>
    simp only [Context.expand]
    rcases rel_cases (h.lookupGlobal name) with ⟨hx, hy⟩ | ⟨_, _, hx, hy, hid⟩
    · rw [hx, hy]
    · rw [hx, hy]
      exact (h.symbolAt hid).ty_eq
  | _ => rfl

theorem push {function function' : Option SymbolId} (hfunction : Option.Rel ρ function function') :
    Alike ρ ⟨ctx.symbols, ctx.scopes.push function⟩ ⟨ctx'.symbols, ctx'.scopes.push function'⟩ := by
  refine ⟨h.symbols, .cons ⟨fun _ => .none, ?_⟩ h.scopes.inner, h.scopes.globals⟩
  cases hfunction with
  | some hid => exact .some hid
  | none => exact h.scopes.current.function

theorem pop : Alike ρ ⟨ctx.symbols, ctx.scopes.pop⟩ ⟨ctx'.symbols, ctx'.scopes.pop⟩ := by
  refine ⟨h.symbols, ?_, h.scopes.globals⟩
  have hinner := h.scopes.inner
  simp only [ScopeStack.inner_pop]
  generalize ctx.scopes.inner = inner, ctx'.scopes.inner = inner' at hinner
  cases hinner with
  | nil => exact .nil
  | cons _ houter => exact houter

/-- Symbols that are alike keep the tables alike when both are added. -/
theorem concat (hρ : PairsOff ρ) {symbol symbol' : Symbol} (hsymbol : symbol.Alike symbol') :
    SymbolTable.Alike ρ (ctx.symbols ++ [symbol]) (ctx'.symbols ++ [symbol']) := by
  have hnew := h.symbols.fresh 0
  refine ⟨fun id id' hid => ?_, fun k => ?_⟩
  · by_cases hlast : id = ctx.symbols.length
    · have hlast' : id' = ctx'.symbols.length := (hρ hid hnew).mp hlast
      rw [hlast, hlast']
      simpa [SymbolTable.symbolAt] using hsymbol
    · have hlast' : ¬id' = ctx'.symbols.length := fun heq => hlast ((hρ hid hnew).mpr heq)
      rw [SymbolTable.symbolAt_concat hlast, SymbolTable.symbolAt_concat hlast']
      exact h.symbols.symbol id id' hid
  · have hlater := h.symbols.fresh (1 + k)
    rw [List.length_append, List.length_append]
    rwa [← Nat.add_assoc, ← Nat.add_assoc] at hlater

end

end Context.Alike

end Laye
