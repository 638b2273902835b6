import Laye.Proofs.Passes.Unit

/-!
# A build without traps

`Guarded.build` is a build that looks before each step which could leave a table or the words of the
machine: before it reads a declaration or a symbol by its place, before it reads a field of a
struct, before it leaves a loop, and before each shift and difference on the way to the limit of a
literal. It also looks whether the symbol at the place of a declaration is that of the declaration.
What lowering reads it looks at beforehand, as the tables do not change any more.

`Guarded.build_never_traps` says that it never ends in a trap, whatever the files are, and comes to
what `Compilation.build` comes to. -/

namespace Laye

variable (keepGoing : Bool)

theorem Compilation.build_program (name : String) (trees : List SyntaxTree) :
    (build keepGoing name trees).program = (checkProgram keepGoing trees).program := by
  cases hprogram : (checkProgram keepGoing trees).program with
  | none =>
    rw [build_of_refused hprogram]
    exact hprogram
  | some p =>
    cases hlower : p.lower name with
    | ok m =>
      rw [build_of_lowered hprogram hlower]
      exact hprogram
    | error _ =>
      rw [build_of_fault hprogram hlower]
      exact hprogram

namespace Guarded

/-- Checks a unit and lowers it to a module of the given name, from an empty log. -/
def build (keepGoing : Bool) (moduleName : String) (trees : List SyntaxTree) :
    Except Trap Compilation := do
  let ((program, module), log) ← Pass.build keepGoing moduleName trees ⟨[], []⟩
  .ok
    { sources := trees.map SyntaxTree.sourceName
      diagnostics := log.diagnostics
      program, module
      stats :=
        match program with
        | some program => Compilation.countDecls program
        | none => {} }

theorem build_eq_ok (name : String) (trees : List SyntaxTree) :
    build keepGoing name trees = .ok (Compilation.build keepGoing name trees) := by
  obtain ⟨log, hrun, hlog⟩ := Pass.build_eq keepGoing name trees ⟨[], []⟩
  have hdiagnostics : log.diagnostics = (Compilation.build keepGoing name trees).diagnostics := hlog
  simp only [build, hrun, bind, Except.bind, hdiagnostics]
  -- the sources and the counts are those of the check, whether or not there is a module
  cases hprogram : (checkProgram keepGoing trees).program with
  | none => simp [Compilation.build_of_refused hprogram, Compilation.check, hprogram]
  | some p =>
    cases hlower : p.lower name with
    | ok m => simp [Compilation.build_of_lowered hprogram hlower, Compilation.check, hprogram]
    | error _ => simp [Compilation.build_of_fault hprogram hlower, Compilation.check, hprogram]

/-- No build traps: all that it reads is in its table, no loop is left that was not entered, and no
limit of a literal needs a shift by less than 7 or more than 63 bits. If it comes to a program, then
lowering reads nothing beyond the symbols of the program, and the declarations of the files are at
their places there, with symbols of their names and kinds. -/
theorem build_never_traps (keepGoing : Bool) (name : String) (trees : List SyntaxTree) :
    build keepGoing name trees = .ok (Compilation.build keepGoing name trees) ∧
    ∀ p ∈ (Compilation.build keepGoing name trees).program,
      (∀ more, ({ p with symbols := p.symbols ++ more } : Typed.Program).lower name =
        p.lower name) ∧
      ∀ (id : SymbolId) (top : TopLevel), (Declarations.ofTrees trees)[id]? = some top →
        ∃ d symbol, p.decls[id]? = some d ∧ d.symbol = id ∧ p.symbols[id]? = some symbol ∧
          symbol.name = top.name.name ∧ symbol.kind = Declarations.kind top := by
  refine ⟨build_eq_ok keepGoing name trees, fun p hp => ?_⟩
  rw [Compilation.build_program] at hp
  refine ⟨fun more => accepted_lower_append hp more name, fun id top htop => ?_⟩
  have hplaces := accepted_places hp
  obtain ⟨d, hd, hchecks⟩ := hplaces.decl_of_top htop
  obtain ⟨symbols, hpopulate, hextends⟩ := hplaces.symbols
  obtain ⟨symbol, hsymbol, his⟩ := Declarations.symbol_of_decl hpopulate htop
  refine ⟨d, symbol, hd, ?_, hextends.getElem? hsymbol, his.name_eq, his.kind_eq⟩
  cases hchecks with
  | struct | enum => rfl
  | function decl hid _ => exact hid

/-- The function of the second file has the place after the four declarations of the first file and
the struct of its own. -/
theorem build_never_traps_grove_counter :
    ∃ p, (Compilation.build false "unit" [.grove, .counter]).program = some p ∧
      build false "unit" [.grove, .counter] =
        .ok (Compilation.build false "unit" [.grove, .counter]) ∧
      (∀ more, ({ p with symbols := p.symbols ++ more } : Typed.Program).lower "unit" =
        p.lower "unit") ∧
      ∃ d symbol, p.decls[5]? = some d ∧ d.symbol = 5 ∧ p.symbols[5]? = some symbol ∧
        symbol.name = "run" ∧ symbol.kind = .function := by
  obtain ⟨hbuild, hplaces⟩ := build_never_traps false "unit" [.grove, .counter]
  have haccepted : (Laye.checkProgram false [.grove, .counter]).program.isSome = true := by
    decide +kernel
  rw [← Compilation.build_program false "unit"] at haccepted
  obtain ⟨p, hp⟩ := Option.isSome_iff_exists.mp haccepted
  exact ⟨p, hp, hbuild, (hplaces p hp).1, (hplaces p hp).2 5 _ rfl⟩

end Guarded

end Laye
