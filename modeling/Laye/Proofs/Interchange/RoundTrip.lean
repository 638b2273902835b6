import Laye.Proofs.Interchange.Inverse

/-!
# Syntax trees survive their text

A tree whose leaves are valid, whose floats read back from their decimals and whose JSON form nests
at most `maxDepth` containers is read back from its text (`SyntaxTree.parse_render`). All trees that
are read have valid leaves and such a form (`SyntaxTree.valid_of_parse`).

Each kind of node has its law (`inverts_decoder`), assembled from the rules for records and
alternatives. Types, expressions and statements hold smaller ones, so theirs are laws of one level
(`inverts_shape`) over the law for the levels below.
-/

namespace Laye

open Decoder (inverts_string inverts_bool inverts_natBelow inverts_float inverts_enumeration
  inverts_variant inverts_nested maxDepth)
open Record (inverts_field inverts_optional)

variable {limit : Nat}

theorem ne_null_of_nesting_pos {α : Type} {encode : α → Json}
    (h : ∀ a, 0 < (encode a).nesting) (a : α) :
    encode a ≠ .null := by
  intro hnull
  have hpos := h a
  rw [hnull] at hpos
  cases hpos

/-! ### Names and types -/

theorem Access.inverts_decoder (limit : Nat) :
    Access.decoder.Inverts limit (fun a => .string a.name) fun _ => [] :=
  inverts_enumeration limit fun a => by cases a <;> rfl

theorem CallingConvention.inverts_decoder (limit : Nat) :
    CallingConvention.decoder.Inverts limit (fun c => .string c.name) fun _ => [] :=
  inverts_enumeration limit fun c => by cases c <;> rfl

theorem VarArgs.inverts_decoder (limit : Nat) :
    VarArgs.decoder.Inverts limit (fun v => .string v.name) fun _ => [] :=
  inverts_enumeration limit fun v => by cases v <;> rfl

theorem UnaryOp.inverts_decoder (limit : Nat) :
    UnaryOp.decoder.Inverts limit (fun op => .string op.name) fun _ => [] :=
  inverts_enumeration limit fun op => by cases op <;> rfl

theorem BinaryOp.inverts_decoder (limit : Nat) :
    BinaryOp.decoder.Inverts limit (fun op => .string op.name) fun _ => [] :=
  inverts_enumeration limit fun op => by cases op <;> rfl

def Ident.leaves (i : Ident) : List Leaf := i.span.leaves

/-- A name is read back from its record. -/
theorem Ident.inverts_decoder (limit : Nat) :
    Ident.decoder.Inverts limit Ident.toJson Ident.leaves := by
  have hrecord := (inverts_field (inverts_string limit) "name").and (Span.inverts_record limit)
  exact (hrecord.map (g := fun i : Ident => (i.name, i.span)) (fun _ => rfl) fun _ => rfl).decoder

namespace TypeExpr

def leaves : TypeExpr → List Leaf
  | .builtin _ span => span.leaves
  | .named name => name.leaves
  | .pointer element _ span | .buffer element _ span | .slice element _ span =>
    element.leaves ++ span.leaves
  | .array element capacity _ span => element.leaves ++ .word 64 capacity :: span.leaves

theorem nesting_pos (t : TypeExpr) : 0 < t.toJson.nesting := by
  cases t <;> exact Nat.succ_pos _

theorem inverts_shape {self : Decoder TypeExpr} (h : self.Inverts limit toJson leaves) :
    (shape self).Inverts (limit + 1) toJson leaves := by
  have hspan := Span.inverts_record limit
  have haccess := inverts_field (Access.inverts_decoder limit) "access"
  have hbuiltin := ((inverts_field (inverts_string limit) "keyword").and hspan).decoder
  have hnamed := Ident.inverts_decoder limit
  have hcontainer := ((inverts_field h "element").and (haccess.and hspan)).decoder
  have harray := ((inverts_field h "element").and
    ((inverts_field (inverts_natBelow limit 64) "capacity").and (haccess.and hspan))).decoder
  refine inverts_variant ?_ ?_
  · intro t
    cases t with
    | builtin keyword span => exact ⟨_, _, _, rfl, rfl, (hbuiltin.reads (keyword, span)).map _⟩
    | named name => exact ⟨_, _, _, rfl, rfl, (hnamed.reads name).map _⟩
    | pointer element access span | buffer element access span | slice element access span =>
      exact ⟨_, _, _, rfl, rfl, (hcontainer.reads (element, access, span)).map _⟩
    | array element capacity access span =>
      exact ⟨_, _, _, rfl, rfl, (harray.reads (element, capacity, access, span)).map _⟩
  · simp only [List.forall_mem_cons, List.not_mem_nil, false_implies, implies_true, and_true]
    exact ⟨hbuiltin.payload, hnamed.payload, hcontainer.payload, hcontainer.payload,
      hcontainer.payload, harray.payload⟩

theorem inverts_decoder : decoder.Inverts maxDepth toJson leaves :=
  inverts_nested nesting_pos fun _ => inverts_shape

end TypeExpr

/-! ### Expressions -/

namespace Expr

mutual

def leaves : Expr → List Leaf
  | .integer value _ span => .word 64 value :: span.leaves
  | .float value span => .float value :: span.leaves
  | .bool _ span | .string _ span => span.leaves
  | .name ident => ident.leaves
  | .invoke target args span => target.leaves ++ (listLeaves args ++ span.leaves)
  | .unary _ operand span => operand.leaves ++ span.leaves
  | .binary _ left right span => left.leaves ++ (right.leaves ++ span.leaves)
  | .index target place span => target.leaves ++ (place.leaves ++ span.leaves)
  | .field target ident span => target.leaves ++ (ident.leaves ++ span.leaves)

def listLeaves : List Expr → List Leaf
  | [] => []
  | e :: es => e.leaves ++ listLeaves es

end

theorem listLeaves_eq (es : List Expr) : listLeaves es = es.flatMap leaves := by
  induction es with
  | nil => rfl
  | cons e _ ih => rw [listLeaves, ih, List.flatMap_cons]

theorem listToJson_eq (es : List Expr) : listToJson es = es.map toJson := by
  induction es with
  | nil => rfl
  | cons e _ ih => rw [listToJson, ih, List.map_cons]

theorem nesting_pos (e : Expr) : 0 < e.toJson.nesting := by
  cases e <;> exact Nat.succ_pos _

theorem inverts_shape {self : Decoder Expr} (h : self.Inverts limit toJson leaves) :
    (shape self).Inverts (limit + 1) toJson leaves := by
  have hspan := Span.inverts_record limit
  have hident := Ident.inverts_decoder limit
  have hinteger := ((inverts_field (inverts_natBelow limit 64) "value").and
    ((inverts_field (inverts_bool limit) "signed").and hspan)).decoder
  have hfloat := ((inverts_field (inverts_float limit) "value").and hspan).decoder
  have hbool := ((inverts_field (inverts_bool limit) "value").and hspan).decoder
  have hstring := ((inverts_field (inverts_string limit) "value").and hspan).decoder
  have hinvoke := ((inverts_field h "target").and ((inverts_field h.list "args").and hspan)).decoder
  have hunary := ((inverts_field (UnaryOp.inverts_decoder limit) "op").and
    ((inverts_field h "operand").and hspan)).decoder
  have hbinary := ((inverts_field (BinaryOp.inverts_decoder limit) "op").and
    ((inverts_field h "left").and ((inverts_field h "right").and hspan))).decoder
  have hindex := ((inverts_field h "target").and ((inverts_field h "index").and hspan)).decoder
  have hfield := ((inverts_field h "target").and ((inverts_field hident "field").and hspan)).decoder
  have hinvokeJson : ∀ target args span, toJson (.invoke target args span) =
      .tagged "Invoke" (.object
        [("target", target.toJson), ("args", .array (args.map toJson)),
          ("span", span.toJson)]) := by
    intro target args span
    rw [toJson, listToJson_eq]
  have hinvokeLeaves : ∀ target args span, leaves (.invoke target args span) =
      target.leaves ++ (args.flatMap leaves ++ span.leaves) := by
    intro target args span
    rw [leaves, listLeaves_eq]
  refine inverts_variant ?_ ?_
  · intro e
    cases e with
    | integer value signed span =>
      exact ⟨_, _, _, rfl, rfl, (hinteger.reads (value, signed, span)).map _⟩
    | float value span => exact ⟨_, _, _, rfl, rfl, (hfloat.reads (value, span)).map _⟩
    | bool value span => exact ⟨_, _, _, rfl, rfl, (hbool.reads (value, span)).map _⟩
    | string value span => exact ⟨_, _, _, rfl, rfl, (hstring.reads (value, span)).map _⟩
    | name ident => exact ⟨_, _, _, rfl, rfl, (hident.reads ident).map _⟩
    | invoke target args span =>
      rw [hinvokeLeaves]
      exact ⟨_, _, _, hinvokeJson target args span, rfl, (hinvoke.reads (target, args, span)).map _⟩
    | unary op operand span => exact ⟨_, _, _, rfl, rfl, (hunary.reads (op, operand, span)).map _⟩
    | binary op left right span =>
      exact ⟨_, _, _, rfl, rfl, (hbinary.reads (op, left, right, span)).map _⟩
    | index target place span =>
      exact ⟨_, _, _, rfl, rfl, (hindex.reads (target, place, span)).map _⟩
    | field target ident span =>
      exact ⟨_, _, _, rfl, rfl, (hfield.reads (target, ident, span)).map _⟩
  · simp only [List.forall_mem_cons, List.not_mem_nil, false_implies, implies_true, and_true]
    exact ⟨hinteger.payload, hfloat.payload, hbool.payload, hstring.payload, hident.payload,
      hinvoke.payload (fun _ => hinvokeJson _ _ _) fun _ => hinvokeLeaves _ _ _, hunary.payload,
      hbinary.payload, hindex.payload, hfield.payload⟩

theorem inverts_decoder : decoder.Inverts maxDepth toJson leaves :=
  inverts_nested nesting_pos fun _ => inverts_shape

end Expr

/-! ### Statements -/

namespace Stmt

mutual

def leaves : Stmt → List Leaf
  | .block stmts span => listLeaves stmts ++ span.leaves
  | .binding ty name value span =>
    ty.toList.flatMap TypeExpr.leaves ++
      (name.leaves ++ (value.toList.flatMap Expr.leaves ++ span.leaves))
  | .expression value => value.leaves
  | .ret value span | .yield value span => value.toList.flatMap Expr.leaves ++ span.leaves
  | .assign target value span => target.leaves ++ (value.leaves ++ span.leaves)
  | .conditional condition body elseBody span | .whileLoop condition body elseBody span =>
    condition.leaves ++ (body.leaves ++ (optionLeaves elseBody ++ span.leaves))
  | .breakLoop span | .continueLoop span => span.leaves

def listLeaves : List Stmt → List Leaf
  | [] => []
  | s :: ss => s.leaves ++ listLeaves ss

def optionLeaves : Option Stmt → List Leaf
  | none => []
  | some s => s.leaves

end

theorem listLeaves_eq (ss : List Stmt) : listLeaves ss = ss.flatMap leaves := by
  induction ss with
  | nil => rfl
  | cons s _ ih => rw [listLeaves, ih, List.flatMap_cons]

theorem optionLeaves_eq (s : Option Stmt) : optionLeaves s = s.toList.flatMap leaves := by
  cases s with
  | none => rfl
  | some s => exact (List.append_nil _).symm

theorem listToJson_eq (ss : List Stmt) : listToJson ss = ss.map toJson := by
  induction ss with
  | nil => rfl
  | cons s _ ih => rw [listToJson, ih, List.map_cons]

theorem optionToJson_eq (s : Option Stmt) : optionToJson s = .option toJson s := by
  cases s <;> rfl

theorem nesting_pos (s : Stmt) : 0 < s.toJson.nesting := by
  cases s <;> exact Nat.succ_pos _

variable {self : Decoder Stmt}

theorem inverts_blockRecord (h : self.Inverts limit toJson leaves) :
    (blockRecord self).decoder.Inverts limit (fun b => blockToJson (listToJson b.1) b.2)
      fun b => listLeaves b.1 ++ b.2.leaves := by
  have hrecord := ((inverts_field h.list "stmts").and (Span.inverts_record limit)).decoder
  simp only [listToJson_eq, listLeaves_eq]
  exact hrecord

theorem inverts_shape (hlimit : limit < maxDepth) (h : self.Inverts limit toJson leaves) :
    (shape self).Inverts (limit + 1) toJson leaves := by
  have hspan := Span.inverts_record limit
  have hexpr := Expr.inverts_decoder.mono (Nat.le_of_lt hlimit)
  have htype := TypeExpr.inverts_decoder.mono (Nat.le_of_lt hlimit)
  have hoptional := inverts_optional hexpr (ne_null_of_nesting_pos Expr.nesting_pos) "value"
  have helse := inverts_optional h (ne_null_of_nesting_pos nesting_pos) "else_body"
  have hblock := inverts_blockRecord h
  have hbinding :=
    ((inverts_optional htype (ne_null_of_nesting_pos TypeExpr.nesting_pos) "ty").and
      ((inverts_field (Ident.inverts_decoder limit) "name").and (hoptional.and hspan))).decoder
  have hvalue := (hoptional.and hspan).decoder
  have hassign := ((inverts_field hexpr "target").and
    ((inverts_field hexpr "value").and hspan)).decoder
  have hconditional := ((inverts_field hexpr "condition").and ((inverts_field h "then_body").and
    (helse.and hspan))).decoder
  have hloop := ((inverts_field hexpr "condition").and ((inverts_field h "body").and
    (helse.and hspan))).decoder
  have hmark := hspan.decoder
  simp only [← optionToJson_eq, ← optionLeaves_eq] at hconditional hloop
  refine inverts_variant ?_ ?_
  · intro s
    cases s with
    | block stmts span => exact ⟨_, _, _, rfl, rfl, (hblock.reads (stmts, span)).map _⟩
    | binding ty name value span =>
      exact ⟨_, _, _, rfl, rfl, (hbinding.reads (ty, name, value, span)).map _⟩
    | expression value => exact ⟨_, _, _, rfl, rfl, (hexpr.reads value).map _⟩
    | ret value span | yield value span =>
      exact ⟨_, _, _, rfl, rfl, (hvalue.reads (value, span)).map _⟩
    | assign target value span =>
      exact ⟨_, _, _, rfl, rfl, (hassign.reads (target, value, span)).map _⟩
    | conditional condition thenBody elseBody span =>
      exact ⟨_, _, _, rfl, rfl, (hconditional.reads (condition, thenBody, elseBody, span)).map _⟩
    | whileLoop condition body elseBody span =>
      exact ⟨_, _, _, rfl, rfl, (hloop.reads (condition, body, elseBody, span)).map _⟩
    | breakLoop span | continueLoop span => exact ⟨_, _, _, rfl, rfl, (hmark.reads span).map _⟩
  · simp only [List.forall_mem_cons, List.not_mem_nil, false_implies, implies_true, and_true]
    exact ⟨hblock.payload, hbinding.payload, hexpr.payload, hvalue.payload, hassign.payload,
      hconditional.payload, hloop.payload, hmark.payload, hmark.payload, hvalue.payload⟩

theorem inverts_decoder : decoder.Inverts maxDepth toJson leaves :=
  inverts_nested nesting_pos inverts_shape

end Stmt

/-! ### Declarations -/

def Param.leaves (p : Param) : List Leaf := p.ty.leaves ++ (p.name.leaves ++ p.span.leaves)

theorem Param.inverts_decoder : Param.decoder.Inverts maxDepth Param.toJson Param.leaves := by
  have hrecord := ((inverts_field TypeExpr.inverts_decoder "ty").and
    ((inverts_field (Ident.inverts_decoder maxDepth) "name").and
      (Span.inverts_record maxDepth))).decoder
  exact hrecord.map (g := fun p : Param => (p.ty, p.name, p.span)) (fun _ => rfl) fun _ => rfl

def Modifier.leaves : Modifier → List Leaf
  | .foreign _ span | .convention _ span => span.leaves

theorem Modifier.inverts_decoder :
    Modifier.decoder.Inverts maxDepth Modifier.toJson Modifier.leaves := by
  have hspan := Span.inverts_record maxDepth
  have hforeign := ((inverts_field (inverts_string maxDepth) "library").and hspan).decoder
  have hconvention := ((inverts_field (CallingConvention.inverts_decoder maxDepth) "convention").and
    hspan).decoder
  refine (inverts_variant ?_ ?_).mono (Nat.le_succ maxDepth)
  · intro m
    cases m with
    | foreign library span => exact ⟨_, _, _, rfl, rfl, (hforeign.reads (library, span)).map _⟩
    | convention c span => exact ⟨_, _, _, rfl, rfl, (hconvention.reads (c, span)).map _⟩
  · simp only [List.forall_mem_cons, List.not_mem_nil, false_implies, implies_true, and_true]
    exact ⟨hforeign.payload, hconvention.payload⟩

def FunctionBody.leaves : FunctionBody → List Leaf
  | .empty span => span.leaves
  | .block stmts span => Stmt.listLeaves stmts ++ span.leaves
  | .expression value => value.leaves

theorem FunctionBody.inverts_decoder :
    FunctionBody.decoder.Inverts maxDepth FunctionBody.toJson FunctionBody.leaves := by
  have hempty := Span.inverts_decoder maxDepth
  have hblock := Stmt.inverts_blockRecord Stmt.inverts_decoder
  have hexpr := Expr.inverts_decoder
  refine (inverts_variant ?_ ?_).mono (Nat.le_succ maxDepth)
  · intro body
    cases body with
    | empty span => exact ⟨_, _, _, rfl, rfl, (hempty.reads span).map _⟩
    | block stmts span => exact ⟨_, _, _, rfl, rfl, (hblock.reads (stmts, span)).map _⟩
    | expression value => exact ⟨_, _, _, rfl, rfl, (hexpr.reads value).map _⟩
  · simp only [List.forall_mem_cons, List.not_mem_nil, false_implies, implies_true, and_true]
    exact ⟨hempty.payload, hblock.payload, hexpr.payload⟩

def FunctionDecl.leaves (d : FunctionDecl) : List Leaf :=
  d.modifiers.flatMap Modifier.leaves ++ (d.returnType.leaves ++ (d.name.leaves ++
    (d.params.flatMap Param.leaves ++ (d.body.leaves ++ d.span.leaves))))

theorem FunctionDecl.inverts_decoder :
    FunctionDecl.decoder.Inverts maxDepth FunctionDecl.toJson FunctionDecl.leaves := by
  have hrecord := ((inverts_field Modifier.inverts_decoder.list "modifiers").and
    ((inverts_field TypeExpr.inverts_decoder "return_type").and
      ((inverts_field (Ident.inverts_decoder maxDepth) "name").and
        ((inverts_field Param.inverts_decoder.list "params").and
          ((inverts_field (VarArgs.inverts_decoder maxDepth) "var_args").and
            ((inverts_field FunctionBody.inverts_decoder "body").and
              (Span.inverts_record maxDepth))))))).decoder
  exact hrecord.map (g := fun d : FunctionDecl =>
    (d.modifiers, d.returnType, d.name, d.params, d.varArgs, d.body, d.span)) (fun _ => rfl)
    fun _ => rfl

def StructDecl.leaves (d : StructDecl) : List Leaf :=
  d.name.leaves ++ (d.fields.flatMap Param.leaves ++ d.span.leaves)

theorem StructDecl.inverts_decoder :
    StructDecl.decoder.Inverts maxDepth StructDecl.toJson StructDecl.leaves := by
  have hrecord := ((inverts_field (Ident.inverts_decoder maxDepth) "name").and
    ((inverts_field Param.inverts_decoder.list "fields").and
      (Span.inverts_record maxDepth))).decoder
  exact hrecord.map (g := fun d : StructDecl => (d.name, d.fields, d.span)) (fun _ => rfl)
    fun _ => rfl

def EnumVariant.leaves (v : EnumVariant) : List Leaf :=
  v.name.leaves ++ v.value.toList.flatMap fun n => [.word 64 n]

theorem EnumVariant.inverts_decoder :
    EnumVariant.decoder.Inverts maxDepth EnumVariant.toJson EnumVariant.leaves := by
  have hrecord := ((inverts_field (Ident.inverts_decoder maxDepth) "name").and
    (inverts_optional (inverts_natBelow maxDepth 64) (fun _ h => by cases h) "value")).decoder
  exact hrecord.map (g := fun v : EnumVariant => (v.name, v.value)) (fun _ => rfl) fun _ => rfl

def EnumDecl.leaves (d : EnumDecl) : List Leaf :=
  d.name.leaves ++ (d.variants.flatMap EnumVariant.leaves ++ d.span.leaves)

theorem EnumDecl.inverts_decoder :
    EnumDecl.decoder.Inverts maxDepth EnumDecl.toJson EnumDecl.leaves := by
  have hrecord := ((inverts_field (Ident.inverts_decoder maxDepth) "name").and
    ((inverts_field EnumVariant.inverts_decoder.list "variants").and
      (Span.inverts_record maxDepth))).decoder
  exact hrecord.map (g := fun d : EnumDecl => (d.name, d.variants, d.span)) (fun _ => rfl)
    fun _ => rfl

def TopLevel.leaves : TopLevel → List Leaf
  | .function decl => decl.leaves
  | .struct decl => decl.leaves
  | .enum decl => decl.leaves

theorem TopLevel.inverts_decoder :
    TopLevel.decoder.Inverts maxDepth TopLevel.toJson TopLevel.leaves := by
  have hfunction := FunctionDecl.inverts_decoder
  have hstruct := StructDecl.inverts_decoder
  have henum := EnumDecl.inverts_decoder
  refine (inverts_variant ?_ ?_).mono (Nat.le_succ maxDepth)
  · intro decl
    cases decl with
    | function decl => exact ⟨_, _, _, rfl, rfl, (hfunction.reads decl).map _⟩
    | struct decl => exact ⟨_, _, _, rfl, rfl, (hstruct.reads decl).map _⟩
    | enum decl => exact ⟨_, _, _, rfl, rfl, (henum.reads decl).map _⟩
  · simp only [List.forall_mem_cons, List.not_mem_nil, false_implies, implies_true, and_true]
    exact ⟨hfunction.payload, hstruct.payload, henum.payload⟩

/-! ### Trees -/

namespace SyntaxTree

def leaves (t : SyntaxTree) : List Leaf := t.decls.flatMap TopLevel.leaves

theorem inverts_decoder : decoder.Inverts maxDepth toJson leaves := by
  have hrecord := ((inverts_field (inverts_string maxDepth) "source_name").and
    (inverts_field TopLevel.inverts_decoder.list "decls")).decoder
  exact hrecord.map (g := fun t : SyntaxTree => (t.sourceName, t.decls)) (fun _ => rfl) fun _ => rfl

/-- The floats of the tree are read back from the decimals that are written for them. -/
def FloatsReadBack (t : SyntaxTree) : Prop := ∀ leaf ∈ t.leaves, leaf.ReadsBack

theorem valid_of_parse {text : String} {t : SyntaxTree} (h : parse text = .ok t) :
    (∀ leaf ∈ t.leaves, leaf.Valid) ∧ t.toJson.nesting ≤ maxDepth :=
  inverts_decoder.gives (Decoder.run_eq_ok.mp h).1

theorem parse_render {t : SyntaxTree} (hvalid : ∀ leaf ∈ t.leaves, leaf.Valid)
    (hfloats : t.FloatsReadBack) (hnesting : t.toJson.nesting ≤ maxDepth) :
    parse t.render = .ok t :=
  inverts_decoder.run (fun leaf hleaf => ⟨hvalid leaf hleaf, hfloats leaf hleaf⟩) hnesting

/-- What is read from a text has normalized spans and is read back from its own text. A tree is read
back from its text exactly when its spans are normalized, its floats finite, its numbers in range
and its form nests at most 127 containers. Floats are to read back from their decimals. -/
theorem survives_text :
    (∀ text t, parse text = .ok t →
      (∀ s, .span s ∈ t.leaves → s.Normalized) ∧ (t.FloatsReadBack → parse t.render = .ok t)) ∧
    ∀ t : SyntaxTree, t.FloatsReadBack →
      (parse t.render = .ok t ↔ (∀ leaf ∈ t.leaves, leaf.Valid) ∧ t.toJson.nesting ≤ 127) := by
  refine ⟨?_, ?_⟩
  · intro text t h
    obtain ⟨hvalid, hnesting⟩ := valid_of_parse h
    exact ⟨fun s hs => hvalid (.span s) hs, fun hfloats => parse_render hvalid hfloats hnesting⟩
  · intro t hfloats
    exact ⟨valid_of_parse, fun ⟨hvalid, hnesting⟩ => parse_render hvalid hfloats hnesting⟩

/-- A tree with all kinds of leaves. -/
def sample : SyntaxTree :=
  let span : Span := ⟨⟨"a.laye", 3, 1, 4⟩, ⟨"a.laye", 9, 1, 10⟩⟩
  let ident : Ident := ⟨"f", span⟩
  let floats : TypeExpr := .array (.builtin "float64" span) 4 .readOnly span
  let value : Expr := .invoke (.name ident) [.float 1.5 span, .string "a\t\"b\"" span] span
  ⟨"a.laye",
    [.function ⟨[.convention .cdecl span], floats, ident, [⟨floats, ident, span⟩], .none,
        .block [.binding none ident (some value) span] span, span⟩,
      .enum ⟨ident, [⟨ident, some 18446744073709551615⟩], span⟩]⟩

theorem sample_survives_text :
    sample.FloatsReadBack ∧ parse sample.render = .ok sample ∧
      ∀ s, .span s ∈ sample.leaves → s.Normalized := by
  have hfloats : sample.FloatsReadBack := by
    unfold FloatsReadBack
    decide +kernel
  have hparse : parse sample.render = .ok sample :=
    (survives_text.2 sample hfloats).mpr ⟨by decide +kernel, by decide +kernel⟩
  exact ⟨hfloats, hparse, (survives_text.1 _ _ hparse).1⟩

/-- A float whose shortest decimal is read as its neighbour. -/
example : ¬ (Leaf.float 1e-25).ReadsBack := by decide +kernel

end SyntaxTree

end Laye
