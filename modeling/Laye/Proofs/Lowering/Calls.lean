import Laye.Proofs.Lowering.Emission
import Laye.Proofs.Lowering.ModuleTyping
import Mathlib.Data.List.Nodup

/-!
# Calls fit their callees

A module has functions with code and external ones, under names of their own
(`IR.Module.callables`). `accepted_lower_calls` says that the module of an accepted program refers
to nothing else, and passes to each function as many arguments as it has parameters, or at least as
many if it takes further ones as C functions do.

Of such a function the module says so only if it is external. `accepted_lower_chatter` is a program
whose module calls a function of its own with more arguments than it declares for it.
-/

namespace Laye

/-- The names of all functions of a module, its own and external ones. -/
def IR.Module.callables (m : IR.Module) : List String :=
  m.functions.map IR.Function.name ++ m.externals.map IR.External.name

/-- Whether a function takes further arguments as C functions do. -/
def Typed.Function.isVariadic (symbols : SymbolTable) (f : Typed.Function) : Bool :=
  (symbols.symbolAt f.symbol).signature?.any fun signature => signature.varArgs = .c

/-! ### The functions of a module -/

variable {tops : List TopLevel} {p : Typed.Program}

theorem Places.nodup_functionNames (h : Places tops p) :
    ((p.decls.filterMap Typed.Decl.function?).map Typed.Function.name).Nodup := by
  have hall : List.Forall₂ (fun (top : TopLevel) (d : Typed.Decl) =>
      ∀ f, d.function? = some f → f.name = top.name.name) tops p.decls := by
    refine List.forall₂_iff_get.mpr ⟨h.length_eq.symm, fun i hi hi' f hf => ?_⟩
    have hchecks := h.checked i _ _ (List.getElem?_eq_getElem hi) (List.getElem?_eq_getElem hi')
    rw [List.get_eq_getElem] at hf ⊢
    generalize tops[i] = top at hchecks ⊢
    generalize p.decls[i] = d at hchecks hf
    cases hchecks with
    | function _ _ hname =>
      cases hf
      exact hname
    | _ => cases hf
  -- The names are some of those of all declarations, in order.
  refine List.Nodup.sublist ?_ h.names
  clear h
  generalize p.decls = decls at hall ⊢
  induction hall with
  | nil => exact List.Sublist.refl _
  | @cons _ d _ _ hname _ ih =>
    cases hf : d.function? with
    | none =>
      rw [List.filterMap_cons_none hf]
      exact ih.cons _
    | some f =>
      rw [List.filterMap_cons_some hf, List.map_cons, List.map_cons, hname f hf]
      exact ih.cons_cons _

namespace Lowering

variable {symbols : SymbolTable} {d : Typed.Decl} {part : IR.Module}

theorem Adds.callables_eq (h : Adds symbols d part) :
    part.callables = d.function?.toList.map Typed.Function.name := by
  cases d with
  | struct _ _ => rcases h.of_struct with ⟨_, _, _, -, rfl⟩ | rfl <;> rfl
  | enum _ _ =>
    rw [h.of_enum]
    rfl
  | function f =>
    obtain ⟨_, -, ⟨g, hg, rfl⟩ | ⟨e, hname, -, -, -, rfl⟩⟩ := h.of_function
    · simp [IR.Module.callables, IR.Module.empty, Typed.Decl.function?, hg.name_eq]
    · simp [IR.Module.callables, IR.Module.empty, Typed.Decl.function?, hname]

variable {decls : List Typed.Decl} {parts : List IR.Module}

theorem callables_ofParts (h : List.Forall₂ (Adds symbols) decls parts) (name : String) :
    (IR.Module.ofParts name parts).callables.Perm
      ((decls.filterMap Typed.Decl.function?).map Typed.Function.name) := by
  induction h with
  | nil => exact .refl _
  | @cons d part _ parts hadds _ ih =>
    have hpart : (IR.Module.ofParts name (part :: parts)).callables.Perm
        (part.callables ++ (IR.Module.ofParts name parts).callables) := by
      simp only [IR.Module.callables, IR.Module.ofParts, List.flatMap_cons, List.map_append,
        List.append_assoc]
      refine List.Perm.append_left _ ?_
      simp only [← List.append_assoc]
      exact List.perm_append_comm.append_right _
    refine hpart.trans ?_
    rw [hadds.callables_eq]
    cases hf : d.function? with
    | none =>
      rw [List.filterMap_cons_none hf]
      exact ih
    | some f =>
      rw [List.filterMap_cons_some hf]
      exact ih.cons _

theorem length_namedShapes (params : List (String × Ty)) :
    (namedShapes params).length = params.length := by
  rw [namedShapes, List.length_map]

theorem exists_decl_of_part (h : List.Forall₂ (Adds symbols) decls parts) (hpart : part ∈ parts) :
    ∃ d ∈ decls, Adds symbols d part := by
  induction h with
  | nil => cases hpart
  | cons hadds _ ih =>
    rcases List.mem_cons.mp hpart with rfl | hpart
    · exact ⟨_, List.mem_cons_self, hadds⟩
    · obtain ⟨d, hd, hadds⟩ := ih hpart
      exact ⟨d, List.mem_cons_of_mem _ hd, hadds⟩

variable {p : Typed.Program} {name : String} {m : IR.Module}

theorem nodup_callables {tops : List TopLevel} (hplaces : Places tops p)
    (hlower : p.lower name = .ok m) : m.callables.Nodup := by
  obtain ⟨_, hparts, rfl⟩ := Typed.Program.lower_eq_ok.mp hlower
  exact (callables_ofParts hparts name).nodup_iff.mpr hplaces.nodup_functionNames

theorem function_of_mem_externals (hlower : p.lower name = .ok m) {e : IR.External}
    (he : e ∈ m.externals) : ∃ f signature, .function f ∈ p.decls ∧ f.name = e.name ∧
      (p.symbols.symbolAt f.symbol).signature? = some signature ∧
      e.params = namedShapes signature.params ∧ e.varArgs = signature.varArgs := by
  obtain ⟨_, hparts, rfl⟩ := Typed.Program.lower_eq_ok.mp hlower
  obtain ⟨_, hpart, he⟩ := List.mem_flatMap.mp he
  obtain ⟨d, hd, hadds⟩ := exists_decl_of_part hparts hpart
  cases d with
  | struct _ _ => rcases hadds.of_struct with ⟨_, _, _, -, rfl⟩ | rfl <;> cases he
  | enum _ _ =>
    cases hadds.of_enum
    cases he
  | function f =>
    obtain ⟨signature, hsignature, ⟨g, -, rfl⟩ | ⟨_, hname, hparams, -, hvarArgs, rfl⟩⟩ :=
      hadds.of_function
    · cases he
    · cases List.mem_singleton.mp he
      exact ⟨f, signature, hd, hname.symm, hsignature, hparams, hvarArgs⟩

end Lowering

theorem IR.Module.mem_callables_of_declares {m : IR.Module} {callee : String} {params : List IR.Ty}
    {ret : IR.Ty} (h : m.Declares callee params ret) : callee ∈ m.callables := by
  cases h with
  | function hg hname => exact List.mem_append_left _ (List.mem_map.mpr ⟨_, hg, hname⟩)
  | external he hname => exact List.mem_append_right _ (List.mem_map.mpr ⟨_, he, hname⟩)

/-! ### Calls -/

/-- The number of arguments fits a function: there is one for each parameter, and no more unless the
function takes further ones. -/
structure Signature.TakesCount (signature : Signature) (count : Nat) : Prop where
  le : signature.params.length ≤ count
  eq : signature.varArgs ≠ .c → count = signature.params.length

/-- If the instruction is a call, it calls a function of the program with as many arguments as that
one takes. -/
def IR.Instruction.CallsWithin (p : Typed.Program) (i : IR.Instruction) : Prop :=
  ∀ dest callee args, i = .call dest callee args → ∃ f signature, .function f ∈ p.decls ∧
    f.name = callee ∧ (p.symbols.symbolAt f.symbol).signature? = some signature ∧
    signature.TakesCount args.length

theorem Typed.Expr.Arguments.takesCount {signature : Signature} {args : List Typed.Expr}
    (h : Typed.Expr.Arguments signature args) : signature.TakesCount args.length := by
  refine ⟨?_, h.count⟩
  have hlength := congrArg List.length h.leading
  simp only [List.length_take, List.length_map, Signature.paramTypes] at hlength
  omega

theorem Typed.Expr.WellTyped.admits {e : Typed.Expr} (hplaces : Places tops p)
    (h : e.WellTyped p.symbols) : e.Admits p.symbols (IR.Instruction.CallsWithin p) := by
  cases h with
  | @invoke symbol signature function _ _ hsymbol hsignature _ hmatch =>
    rintro dest values hlength _ _ _ ⟨⟩
    have hkind : symbol.kind = .function := by
      unfold Symbol.signature? at hsignature
      split at hsignature
      · assumption
      · cases hsignature
    obtain ⟨f, hf, hname, hf'⟩ :=
      hplaces.function_of_symbol (List.mem_of_getElem? hsymbol) hkind
    refine ⟨f, signature, hf, ?_, ?_, hlength ▸ hmatch.takesCount⟩
    · rw [hname, SymbolTable.symbolAt_eq hsymbol]
    · rw [SymbolTable.symbolAt_eq hf', hsignature]
  | _ => trivial

theorem Lowering.callsWithin_of_mem_functions {keepGoing : Bool} {trees : List SyntaxTree}
    {name : String} {m : IR.Module} (hcheck : (checkProgram keepGoing trees).program = some p)
    (hlower : p.lower name = .ok m) {g : IR.Function} (hg : g ∈ m.functions) :
    ∀ block ∈ g.blocks, ∀ i ∈ block.instructions, i.CallsWithin p := by
  have hcode : ∀ i : IR.Instruction, i.isCall = false → i.CallsWithin p := by
    rintro i hi dest callee args rfl
    cases hi
  obtain ⟨f, hf, _, -, hdefines⟩ := Lowering.defines_of_mem_functions hlower hg
  obtain ⟨_, hwell⟩ := (accepted_wellTyped hcheck).2 f hf
  exact hdefines.forall_instructions hcode fun e he =>
    (hwell.body.of_mem_exprs he).admits (accepted_places hcheck)

/-- The module of an accepted program refers only to functions that it has, each under a name of its
own, and a call passes as many arguments as the callee has parameters. There may be more if the
callee takes further arguments as C functions do, which an external one says itself. -/
theorem accepted_lower_calls {keepGoing : Bool} {trees : List SyntaxTree} {p : Typed.Program}
    {name : String} {m : IR.Module} (hcheck : (checkProgram keepGoing trees).program = some p)
    (hlower : p.lower name = .ok m) :
    m.callables.Nodup ∧ ∀ g ∈ m.functions, ∀ block ∈ g.blocks,
      (∀ callee, .global callee ∈ block.operands → m.callables.count callee = 1) ∧
      ∀ dest callee args, .call dest callee args ∈ block.instructions →
        m.callables.count callee = 1 ∧
        (∀ e ∈ m.externals, e.name = callee → e.params.length ≤ args.length ∧
          (e.varArgs ≠ .c → args.length = e.params.length)) ∧
        ∀ g' ∈ m.functions, g'.name = callee → g'.params.length ≤ args.length ∧
          (args.length = g'.params.length ∨
            ∃ f, .function f ∈ p.decls ∧ f.name = callee ∧ f.isVariadic p.symbols = true) := by
  have hplaces := accepted_places hcheck
  have hnodup := Lowering.nodup_callables hplaces hlower
  refine ⟨hnodup, fun g hg block hblock => ?_⟩
  obtain ⟨types, htypes⟩ := Lowering.wellTyped_of_mem_functions hcheck hlower hg
  refine ⟨fun callee hcallee => ?_, fun dest callee args hcall => ?_⟩
  · obtain ⟨ty, hty⟩ := (htypes block hblock).operand hcallee
    cases hty with
    | global hdeclares =>
      exact List.count_eq_one_of_mem hnodup (IR.Module.mem_callables_of_declares hdeclares)
  obtain ⟨f, signature, hf, hname, hsignature, htakes⟩ :=
    Lowering.callsWithin_of_mem_functions hcheck hlower hg block hblock _ hcall dest callee args rfl
  -- What the module declares under the name, it declares because of this function.
  have hsame : ∀ f' signature', .function f' ∈ p.decls → f'.name = callee →
      (p.symbols.symbolAt f'.symbol).signature? = some signature' → signature' = signature := by
    intro f' signature' hf' hname' hsignature'
    rw [hplaces.symbol_eq_of_name_eq hf' hf (hname'.trans hname.symm), hsignature] at hsignature'
    exact (Option.some.inj hsignature').symm
  refine ⟨?_, fun e he hename => ?_, fun g' hg' hgname => ?_⟩
  · obtain ⟨-, ⟨params, ret, hdeclares⟩, -⟩ := (htypes block hblock).1 _ hcall
    exact List.count_eq_one_of_mem hnodup (IR.Module.mem_callables_of_declares hdeclares)
  · obtain ⟨f', signature', hf', hname', hsignature', hparams, hvarArgs⟩ :=
      Lowering.function_of_mem_externals hlower he
    cases hsame f' signature' hf' (hname'.trans hename) hsignature'
    rw [hparams, hvarArgs, Lowering.length_namedShapes]
    exact ⟨htakes.le, htakes.eq⟩
  · obtain ⟨f', hf', signature', hsignature', hdefines⟩ :=
      Lowering.defines_of_mem_functions hlower hg'
    cases hsame f' signature' hf' (hdefines.name_eq.symm.trans hgname) hsignature'
    rw [hdefines.params_eq, Lowering.length_namedShapes]
    refine ⟨htakes.le, ?_⟩
    by_cases hvariadic : signature.varArgs = .c
    · refine Or.inr ⟨f, hf, hname, ?_⟩
      rw [Typed.Function.isVariadic, hsignature]
      simpa using hvariadic
    · exact Or.inl (htakes.eq hvariadic)

open Plain in
/-- A function that takes further arguments, has a body and is called with one:
`void log(int n, ...) { }` and `void main() { log(1, 2); }`. -/
def SyntaxTree.chatter : SyntaxTree :=
  { sourceName := "chatter"
    decls := [
      .function ⟨[], keyword "void", ident "log", [param (keyword "int") "n"], .c,
        .block [] .nowhere, .nowhere⟩,
      function (keyword "void") "main" []
        [.expression (.invoke (name "log") [number 1, number 2] .nowhere)]] }

/-- The callee of a call and the number of its arguments. -/
def IR.Instruction.call? : IR.Instruction → Option (String × Nat)
  | .call _ callee args => some (callee, args.length)
  | _ => none

theorem IR.Instruction.call?_eq_some {i : IR.Instruction} {callee : String} {count : Nat}
    (h : i.call? = some (callee, count)) :
    ∃ dest args, i = .call dest callee args ∧ args.length = count := by
  cases i with
  | call dest _ args =>
    cases h
    exact ⟨dest, args, rfl, rfl⟩
  | _ => cases h

theorem SyntaxTree.exists_module_chatter :
    ∃ p m g block dest args g', (checkProgram false [.chatter]).program = some p ∧
      p.lower "chatter" = .ok m ∧ g ∈ m.functions ∧ block ∈ g.blocks ∧
      .call dest "log" args ∈ block.instructions ∧ args.length = 2 ∧
      g' ∈ m.functions ∧ g'.name = "log" ∧ g'.params.length = 1 ∧ m.externals = [] := by
  have hany : ((checkProgram false [.chatter]).program.any fun p =>
      (p.lower "chatter").toOption.any fun m =>
        (m.functions.any fun g => g.blocks.any fun block => block.instructions.any fun i =>
          decide (i.call? = some ("log", 2))) &&
        (m.functions.any fun g => decide (g.name = "log" ∧ g.params.length = 1)) &&
        m.externals.isEmpty) = true := by
    decide +kernel
  obtain ⟨p, hp, hany⟩ := (Option.any_eq_true _ _).mp hany
  cases hlower : p.lower "chatter" with
  | error _ =>
    rw [hlower] at hany
    cases hany
  | ok m =>
    simp only [hlower, Except.toOption, Option.any_some, Bool.and_eq_true, List.any_eq_true,
      decide_eq_true_eq, List.isEmpty_iff] at hany
    obtain ⟨⟨⟨g, hg, block, hblock, i, hi, hcall⟩, g', hg', hname, hparams⟩, hexternals⟩ := hany
    obtain ⟨dest, args, rfl, hlength⟩ := IR.Instruction.call?_eq_some hcall
    exact ⟨p, m, g, block, dest, args, g', hp, hlower, hg, hblock, hi, hlength, hg', hname,
      hparams, hexternals⟩

theorem accepted_lower_calls_chatter :
    ∃ p m g block dest args, (checkProgram false [.chatter]).program = some p ∧
      p.lower "chatter" = .ok m ∧ g ∈ m.functions ∧ block ∈ g.blocks ∧
      .call dest "log" args ∈ block.instructions ∧ m.callables.count "log" = 1 := by
  obtain ⟨p, m, g, block, dest, args, _, hp, hlower, hg, hblock, hcall, -⟩ :=
    SyntaxTree.exists_module_chatter
  exact ⟨p, m, g, block, dest, args, hp, hlower, hg, hblock, hcall,
    (((accepted_lower_calls hp hlower).2 g hg block hblock).2 dest "log" args hcall).1⟩

/-- The call passes two arguments to a function that the module declares with one parameter, and
nothing in the module says that the function takes more. -/
theorem accepted_lower_chatter :
    ∃ p m g block dest args g', (checkProgram false [.chatter]).program = some p ∧
      p.lower "chatter" = .ok m ∧ g ∈ m.functions ∧ block ∈ g.blocks ∧
      .call dest "log" args ∈ block.instructions ∧ g' ∈ m.functions ∧ g'.name = "log" ∧
      args.length ≠ g'.params.length ∧ ∀ e ∈ m.externals, e.name ≠ "log" := by
  obtain ⟨p, m, g, block, dest, args, g', hp, hlower, hg, hblock, hcall, hlength, hg', hname,
    hparams, hexternals⟩ := SyntaxTree.exists_module_chatter
  refine ⟨p, m, g, block, dest, args, g', hp, hlower, hg, hblock, hcall, hg', hname, ?_, ?_⟩
  · rw [hlength, hparams]
    decide
  · simp [hexternals]

end Laye
