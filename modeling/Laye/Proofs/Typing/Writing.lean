import Laye.Proofs.Typing.Soundness

/-!
# Writing through containers

A store to a place writes through the containers that the place lies in (`Typed.Expr.containers`):
the element of an array lies in the array and in whatever the array lies in, while behind a pointer,
a buffer, a slice or a string the way ends.

The checker looks at the nearest of these containers alone (`Typed.Expr.container?_eq`). So in an
accepted program no assignment writes through a container that forbids it, unless the container is
hidden behind an array that may be written to, and the same goes for pointers
(`checkProgram_protection`). The exception is real: `checkProgram_box` is a program that is accepted
and writes to an array behind a read-only pointer.
-/

namespace Laye

namespace Typed

/-! ### The parts of a function -/

namespace Expr

/-- The containers that a place lies in, the nearest first. -/
def containers : Expr → List Ty
  | .dereference _ _ inner => [inner.ty]
  | .index _ _ target _ =>
    match target.ty with
    | .array _ _ _ => target.ty :: target.containers
    | _ => [target.ty]
  | .field _ _ target _ _ => target.containers
  | _ => []

theorem container?_eq : (e : Expr) → e.container? = e.containers.head?
  | .field _ _ target _ _ => container?_eq target
  | .index _ _ _ _ => by
    simp only [container?, containers]
    split <;> rfl
  | .dereference _ _ _ => rfl
  | .integer _ _ _ _ | .float _ _ _ | .bool _ _ _ | .string _ _ _ | .load _ _ _ | .cast _ _ _
  | .materialize _ _ _ | .invoke _ _ _ _ | .unary _ _ _ _ | .binary _ _ _ _ _
  | .addressOf _ _ _ => rfl

mutual

/-- The expression and all expressions in it. -/
def nodes (e : Expr) : List Expr :=
  e :: match e with
  | .cast _ _ inner | .materialize _ _ inner | .unary _ _ _ inner | .addressOf _ _ inner
  | .dereference _ _ inner | .field _ _ inner _ _ => inner.nodes
  | .invoke _ _ _ args => nodesAll args
  | .binary _ _ _ left right | .index _ _ left right => left.nodes ++ right.nodes
  | _ => []

def nodesAll : List Expr → List Expr
  | [] => []
  | e :: es => e.nodes ++ nodesAll es

end

variable {e e' : Expr}

theorem mem_nodesAll {es : List Expr} : e ∈ nodesAll es ↔ ∃ x ∈ es, e ∈ x.nodes := by
  induction es with
  | nil => simp [nodesAll]
  | cons _ _ ih => simp [nodesAll, ih]

theorem mem_nodes : e' ∈ e.nodes ↔ e' = e ∨ e' ∈ e.nodes.tail := by
  conv_lhs => unfold nodes
  conv_rhs => unfold nodes
  exact List.mem_cons

theorem WellTyped.of_mem_nodes {symbols : SymbolTable} (h : e.WellTyped symbols)
    (hmem : e' ∈ e.nodes) : e'.WellTyped symbols := by
  -- The expression itself is known to be well typed; the induction is about those inside it.
  rcases mem_nodes.mp hmem with rfl | htail
  · exact h
  clear hmem
  have hinside : ∀ {e : Expr}, e.WellTyped symbols → (e' ∈ e.nodes.tail → e'.WellTyped symbols) →
      e' ∈ e.nodes → e'.WellTyped symbols := by
    intro e he htail hmem
    rcases mem_nodes.mp hmem with rfl | hmem
    · exact he
    · exact htail hmem
  induction h with
  | cast _ hinner _ _ ih | materialize _ hinner _ ih | unary _ hinner _ ih
  | addressOf _ hinner _ ih | dereference _ hinner _ ih | field _ hinner _ _ _ ih =>
    exact hinside hinner ih htail
  | binary _ hleft hright _ _ ihleft ihright | index _ hleft hright _ _ ihleft ihright =>
    rcases List.mem_append.mp htail with hmem | hmem
    · exact hinside hleft ihleft hmem
    · exact hinside hright ihright hmem
  | invoke _ _ _ hargs _ ih =>
    obtain ⟨arg, harg, hmem⟩ := mem_nodesAll.mp htail
    exact hinside (hargs arg harg) (ih arg harg) hmem
  | _ => cases htail

end Expr

namespace Stmt

mutual

/-- The statement and all statements in it, those that can never run included. -/
def nodes (s : Stmt) : List Stmt :=
  s :: match s with
  | .block stmts _ | .deadCode stmts _ => nodesAll stmts
  | .conditional _ body none _ | .whileLoop _ body none _ => body.nodes
  | .conditional _ body (some elseBody) _ | .whileLoop _ body (some elseBody) _ =>
    body.nodes ++ elseBody.nodes
  | _ => []

def nodesAll : List Stmt → List Stmt
  | [] => []
  | s :: ss => s.nodes ++ nodesAll ss

end

mutual

/-- The variables that the statement and those in it declare, dead code included, in the order of
the text. -/
def introduced : Stmt → List SymbolId
  | .block stmts _ | .deadCode stmts _ => introducedAll stmts
  | .binding symbol _ _ => [symbol]
  | .conditional _ body none _ | .whileLoop _ body none _ => body.introduced
  | .conditional _ body (some elseBody) _ | .whileLoop _ body (some elseBody) _ =>
    body.introduced ++ elseBody.introduced
  | .expression _ | .ret _ _ | .assign _ _ _ | .breakLoop _ | .continueLoop _ | .yield _ _ => []

/-- The variables that the statements declare. -/
def introducedAll : List Stmt → List SymbolId
  | [] => []
  | stmt :: rest => stmt.introduced ++ introducedAll rest

end

/-- The expressions that stand in the statement itself. -/
def operands : Stmt → List Expr
  | .binding _ value _ | .ret value _ | .yield value _ => value.toList
  | .expression value => [value]
  | .assign target value _ => [target, value]
  | .conditional condition _ _ _ | .whileLoop condition _ _ _ => [condition]
  | _ => []

theorem mem_nodes {s s' : Stmt} : s' ∈ s.nodes ↔ s' = s ∨ s' ∈ s.nodes.tail := by
  conv_lhs => unfold nodes
  conv_rhs => unfold nodes
  exact List.mem_cons

theorem mem_nodesAll {ss : List Stmt} {s : Stmt} : s ∈ nodesAll ss ↔ ∃ x ∈ ss, s ∈ x.nodes := by
  induction ss with
  | nil => simp [nodesAll]
  | cons _ _ ih => simp [nodesAll, ih]

variable {symbols : SymbolTable} {returnType : Ty} {inLoop : Bool} {s s' : Stmt}

theorem WellTyped.of_mem_nodes (h : s.WellTyped symbols returnType inLoop) (hmem : s' ∈ s.nodes) :
    ∃ inLoop', s'.WellTyped symbols returnType inLoop' := by
  rcases mem_nodes.mp hmem with rfl | htail
  · exact ⟨inLoop, h⟩
  clear hmem
  have hinside : ∀ {inLoop : Bool} {s : Stmt}, s.WellTyped symbols returnType inLoop →
      (s' ∈ s.nodes.tail → ∃ inLoop', s'.WellTyped symbols returnType inLoop') →
      s' ∈ s.nodes → ∃ inLoop', s'.WellTyped symbols returnType inLoop' := by
    intro inLoop s hs htail hmem
    rcases mem_nodes.mp hmem with rfl | hmem
    · exact ⟨inLoop, hs⟩
    · exact htail hmem
  induction h with
  | block _ hstmts ih | deadCode _ hstmts ih =>
    obtain ⟨stmt, hstmt, hmem⟩ := mem_nodesAll.mp htail
    exact hinside (hstmts stmt hstmt) (ih stmt hstmt) hmem
  | @conditional _ _ _ elseBody _ _ _ hbody helse ihbody ihelse
  | @whileLoop _ _ _ elseBody _ _ _ hbody helse ihbody ihelse =>
    cases elseBody with
    | none => exact hinside hbody ihbody htail
    | some stmt =>
      rcases List.mem_append.mp htail with hmem | hmem
      · exact hinside hbody ihbody hmem
      · exact hinside (helse stmt rfl) (ihelse stmt rfl) hmem
  | _ => cases htail

theorem WellTyped.of_mem_operands (h : s.WellTyped symbols returnType inLoop) {e : Expr}
    (hmem : e ∈ s.operands) : e.WellTyped symbols := by
  cases h with
  | binding _ _ _ _ hvalue => exact (hvalue e (by simpa [operands] using hmem)).1
  | expression hvalue => exact (List.mem_singleton.mp hmem) ▸ hvalue
  | ret _ hvalue =>
    rw [Option.mem_toList.mp hmem] at hvalue
    exact hvalue.2.1
  | assign _ htarget _ _ hvalue _ =>
    rcases List.mem_pair.mp hmem with rfl | rfl
    · exact htarget
    · exact hvalue
  | conditional _ hcondition _ _ _ | whileLoop _ hcondition _ _ _ =>
    exact (List.mem_singleton.mp hmem) ▸ hcondition
  | yield _ hvalue => exact hvalue e (by simpa [operands] using hmem)
  | _ => cases hmem

end Stmt

namespace Body

/-- All statements of the body. -/
def stmts : Body → List Stmt
  | .block stmts _ => Stmt.nodesAll stmts
  | _ => []

/-- The variables that the body declares. -/
def introduced : Body → List SymbolId
  | .block stmts _ => Stmt.introducedAll stmts
  | .empty | .expression _ => []

/-- All expressions of the body. -/
def exprs : Body → List Expr
  | .expression value => value.nodes
  | body => body.stmts.flatMap fun s => s.operands.flatMap Expr.nodes

theorem mem_exprs_block {stmts : List Stmt} {span : Span} {e : Expr} :
    e ∈ (block stmts span).exprs ↔
      ∃ stmt ∈ stmts, ∃ s ∈ stmt.nodes, ∃ operand ∈ s.operands, e ∈ operand.nodes := by
  simp only [exprs, Body.stmts, List.mem_flatMap, Stmt.mem_nodesAll]
  constructor
  · rintro ⟨s, ⟨stmt, hstmt, hs⟩, operand, hoperand, he⟩
    exact ⟨stmt, hstmt, s, hs, operand, hoperand, he⟩
  · rintro ⟨stmt, hstmt, s, hs, operand, hoperand, he⟩
    exact ⟨s, ⟨stmt, hstmt, hs⟩, operand, hoperand, he⟩

theorem mem_exprs_of_mem_stmts {body : Body} {s : Stmt} (hs : s ∈ body.stmts) {operand e : Expr}
    (hoperand : operand ∈ s.operands) (he : e ∈ operand.nodes) : e ∈ body.exprs := by
  cases body with
  | block _ _ =>
    exact List.mem_flatMap.mpr ⟨s, hs, List.mem_flatMap.mpr ⟨operand, hoperand, he⟩⟩
  | _ => cases hs

variable {symbols : SymbolTable} {returnType : Ty} {body : Body}

/-- All statements in a well-typed body are well typed. -/
theorem WellTyped.of_mem_stmts (h : body.WellTyped symbols returnType) {s : Stmt}
    (hmem : s ∈ body.stmts) : ∃ inLoop, s.WellTyped symbols returnType inLoop := by
  cases body with
  | block _ _ =>
    obtain ⟨stmt, hstmt, hmem⟩ := Stmt.mem_nodesAll.mp hmem
    exact (h stmt hstmt).of_mem_nodes hmem
  | _ => cases hmem

/-- So are all expressions in it. -/
theorem WellTyped.of_mem_exprs (h : body.WellTyped symbols returnType) {e : Expr}
    (hmem : e ∈ body.exprs) : e.WellTyped symbols := by
  cases body with
  | expression _ => exact h.1.of_mem_nodes hmem
  | empty => cases hmem
  | block _ _ =>
    obtain ⟨s, hs, hmem⟩ := List.mem_flatMap.mp hmem
    obtain ⟨_, hoperand, hmem⟩ := List.mem_flatMap.mp hmem
    obtain ⟨_, hwell⟩ := WellTyped.of_mem_stmts h hs
    exact (hwell.of_mem_operands hoperand).of_mem_nodes hmem

end Body

/-- The variables of a function: its parameters and those that its body declares. -/
def Function.introduced (f : Function) : List SymbolId := f.params ++ f.body.introduced

/-- The variables of a declaration. -/
def Decl.introduced : Decl → List SymbolId
  | .function f => f.introduced
  | .struct _ _ | .enum _ _ => []

/-- The variables of all functions. -/
def Program.introduced (p : Program) : List SymbolId := p.decls.flatMap Decl.introduced

end Typed

/-! ### Writing -/

/-- What the nearest container of a place forbids. -/
def Typed.Expr.nearestProtection? (e : Typed.Expr) : Option Access :=
  e.containers.head?.bind Ty.protection?

/-- The place lies in an array that may be written to, and the container is further away. -/
def Typed.Expr.Hidden (e : Typed.Expr) (container : Ty) : Prop :=
  ∃ element capacity access rest, e.containers = .array element capacity access :: rest ∧
    access.forbidsWriting = false ∧ container ∈ rest

theorem Ty.forbidsWriting_of_protection? {ty : Ty} {access : Access}
    (h : ty.protection? = some access) : access.forbidsWriting = true := by
  cases ty with
  | string =>
    cases h
    rfl
  | pointer _ access' | buffer _ access' | slice _ access' | array _ _ _ =>
    simp only [protection?] at h
    split at h
    · cases h
      assumption
    · cases h
  | _ => cases h

namespace Typed.Expr

theorem isArray_of_containers : (e : Expr) → {first : Ty} → {rest : List Ty} →
    e.containers = first :: rest → rest ≠ [] →
    ∃ element capacity access, first = .array element capacity access
  | .field _ _ target _ _, _, _, h, hrest => isArray_of_containers target h hrest
  | .index _ _ _ _, _, _, h, hrest => by
    simp only [containers] at h
    split at h
    · rename_i element capacity access hty
      cases h
      exact ⟨element, capacity, access, hty⟩
    · cases h
      exact absurd rfl hrest
  | .dereference _ _ _, _, _, h, hrest => by
    cases h
    exact absurd rfl hrest
  | .integer _ _ _ _, _, _, h, _ | .float _ _ _, _, _, h, _ | .bool _ _ _, _, _, h, _
  | .string _ _ _, _, _, h, _ | .load _ _ _, _, _, h, _ | .cast _ _ _, _, _, h, _
  | .materialize _ _ _, _, _, h, _ | .invoke _ _ _ _, _, _, h, _ | .unary _ _ _ _, _, _, h, _
  | .binary _ _ _ _ _, _, _, h, _ | .addressOf _ _ _, _, _, h, _ => by cases h

theorem hidden_of_nearest {e : Expr} {container : Ty} (hnearest : e.nearestProtection? = none)
    (hmem : container ∈ e.containers) (hcontainer : container.protection?.isSome = true) :
    e.Hidden container := by
  cases hcontainers : e.containers with
  | nil => simp [hcontainers] at hmem
  | cons _ rest =>
    simp only [nearestProtection?, hcontainers, List.head?_cons, Option.bind_some] at hnearest
    rw [hcontainers] at hmem
    rcases List.mem_cons.mp hmem with rfl | hrest
    · simp [hnearest] at hcontainer
    · obtain ⟨element, capacity, access, rfl⟩ :=
        isArray_of_containers e hcontainers (List.ne_nil_of_mem hrest)
      exact ⟨element, capacity, access, rest, hcontainers,
        by simpa [Ty.protection?] using hnearest, hrest⟩

theorem nearestProtection?_of_readOnlyContainer? {e : Expr} (h : e.readOnlyContainer? = none) :
    e.nearestProtection? = none := by
  simpa [readOnlyContainer?, container?_eq, nearestProtection?, Option.filter_eq_none_iff] using h

theorem forbidsWriting_addressAccess (e : Expr) :
    e.addressAccess.forbidsWriting = true ↔ e.nearestProtection?.isSome = true := by
  rw [addressAccess, container?_eq, ← nearestProtection?]
  cases h : e.nearestProtection? with
  | none => simp [Access.forbidsWriting]
  | some _ =>
    obtain ⟨_, -, hty⟩ := Option.bind_eq_some_iff.mp h
    simp [Ty.forbidsWriting_of_protection? hty]

end Typed.Expr

/-- In an accepted program, a container that forbids writing is written to only if it is hidden
behind an array. A pointer forbids writing just when the nearest container of what it points to
does, so it forbids it whenever any container does that is not hidden. -/
theorem checkProgram_protection {keepGoing : Bool} {trees : List SyntaxTree}
    {p : Typed.Program} (h : (checkProgram keepGoing trees).program = some p) {f : Typed.Function}
    (hf : .function f ∈ p.decls) :
    (∀ target value span, .assign target value span ∈ f.body.stmts →
      ∀ container ∈ target.containers, container.protection?.isSome = true →
        target.Hidden container) ∧
    ∀ ty span inner, .addressOf ty span inner ∈ f.body.exprs →
      ∃ access, ty = .pointerTo inner.ty access ∧
        (access.forbidsWriting = true ↔ inner.nearestProtection?.isSome = true) ∧
        ∀ container ∈ inner.containers, container.protection?.isSome = true →
          access.forbidsWriting = true ∨ inner.Hidden container := by
  obtain ⟨signature, hwell⟩ := (accepted_wellTyped h).2 f hf
  refine ⟨fun target value span hmem container hcontainer hprotected => ?_,
    fun ty span inner hmem => ?_⟩
  · obtain ⟨inLoop, hassign⟩ := hwell.body.of_mem_stmts hmem
    cases hassign with
    | assign _ _ _ hwrite _ _ =>
      exact Typed.Expr.hidden_of_nearest
        (Typed.Expr.nearestProtection?_of_readOnlyContainer? hwrite) hcontainer hprotected
  · cases hwell.body.of_mem_exprs hmem with
    | addressOf _ _ _ =>
      have haccess := inner.forbidsWriting_addressAccess
      refine ⟨inner.addressAccess, rfl, haccess, fun container hcontainer hprotected => ?_⟩
      cases hnearest : inner.nearestProtection? with
      | none => exact Or.inr (Typed.Expr.hidden_of_nearest hnearest hcontainer hprotected)
      | some _ => exact Or.inl (haccess.mpr (by simp [hnearest]))

/-- Whether the statement assigns to a place in a container that forbids writing. -/
def Typed.Stmt.writesProtected : Typed.Stmt → Bool
  | .assign target _ _ => target.containers.any (·.protection?.isSome)
  | _ => false

/-- Whether the statement assigns to a place in some container. -/
def Typed.Stmt.writesContained : Typed.Stmt → Bool
  | .assign target _ _ => !target.containers.isEmpty
  | _ => false

theorem checkProgram_protection_counter :
    ∃ p f target value span, (checkProgram false [.counter]).program = some p ∧
      .function f ∈ p.decls ∧ .assign target value span ∈ f.body.stmts ∧
      target.containers ≠ [] ∧ ∀ container ∈ target.containers,
        container.protection?.isSome = true → target.Hidden container := by
  obtain ⟨p, f, hp, hf, hwrites⟩ : ∃ p f, (checkProgram false [.counter]).program = some p ∧
      .function f ∈ p.decls ∧ f.body.stmts.any Typed.Stmt.writesContained = true :=
    exists_function_of_any (by decide +kernel)
  obtain ⟨stmt, hstmt, hcontained⟩ := List.any_eq_true.mp hwrites
  cases stmt with
  | assign target value span =>
    exact ⟨p, f, target, value, span, hp, hf, hstmt,
      by simpa [Typed.Stmt.writesContained] using hcontained,
      (checkProgram_protection hp hf).1 target value span hstmt⟩
  | _ => cases hcontained

open Plain in
/-- A struct with an array, and a function that writes to it behind a read-only pointer:
`struct box { i32[4] cells; }` and `void f(box readonly* p) { p.cells[0] = 1; }`. -/
def SyntaxTree.box : SyntaxTree :=
  { sourceName := "box"
    decls := [
      struct "box" [param (array (keyword "i32") 4) "cells"],
      function (keyword "void") "f" [param (.pointer (named "box") .readOnly .nowhere) "p"]
        [assign (element (field (name "p") "cells") 0) (number 1)]] }

/-- The write to a container that forbids it is accepted. -/
theorem checkProgram_box :
    ∃ p f target value span container, (checkProgram false [.box]).program = some p ∧
      .function f ∈ p.decls ∧ .assign target value span ∈ f.body.stmts ∧
      container ∈ target.containers ∧ container.protection?.isSome = true := by
  obtain ⟨p, f, hp, hf, hwrites⟩ : ∃ p f, (checkProgram false [.box]).program = some p ∧
      .function f ∈ p.decls ∧ f.body.stmts.any Typed.Stmt.writesProtected = true :=
    exists_function_of_any (by decide +kernel)
  obtain ⟨stmt, hstmt, hprotected⟩ := List.any_eq_true.mp hwrites
  cases stmt with
  | assign target value span =>
    obtain ⟨container, hmem, hcontainer⟩ := List.any_eq_true.mp hprotected
    exact ⟨p, f, target, value, span, container, hp, hf, hstmt, hmem, hcontainer⟩
  | _ => cases hprotected

end Laye
