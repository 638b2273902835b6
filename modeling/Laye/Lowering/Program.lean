import Laye.Lowering.Statement

/-!
# Lowering a program

Each function of a checked program becomes a function of the module, or an external one if it has
no body; each struct becomes a struct. Variants of enums are constants by now and leave nothing
behind. Lowering stops at the first fault.
-/

namespace Laye

namespace Lowering

/-- Gives the parameters, from the place `next` on, slots that hold their arguments. -/
def params (symbols : SymbolTable) : Nat → List SymbolId → Lower Unit
  | _, [] => pure ()
  | next, symbol :: rest => do
    let slot ← Lower.reserve (symbols.symbolAt symbol).ty.shape
    Lower.storeSlot slot (.param next)
    Lower.bindSlot symbol slot
    params symbols (next + 1) rest

/-- The code of a body. -/
def body (symbols : SymbolTable) (returnsVoid : Bool) : Typed.Body → Lower Unit
  | .empty => pure ()
  | .block stmts _ => Typed.Stmt.lowerBlock symbols none stmts
  | .expression value => do
    let value ← value.lowerValue symbols
    Lower.close (.ret (if returnsVoid then none else some value))

/-- The code of a function. -/
def code (symbols : SymbolTable) (returnsVoid : Bool) (f : Typed.Function) : Lower Unit := do
  params symbols 0 f.params
  body symbols returnsVoid f.body

/-- Ends an open block with a return that gives no value. -/
def closeOpen (b : IR.Block) : IR.Block := if b.isClosed then b else b.close (.ret none)

/-- The blocks of a function with an end to each of them. If the function gives a value, an open
block means that control can fall off its end. -/
def complete (returnsVoid : Bool) (f : Typed.Function) (blocks : List IR.Block) :
    Except Fault (List IR.Block) :=
  if returnsVoid then .ok (blocks.map closeOpen)
  else if blocks.all IR.Block.isClosed then .ok blocks
  else .error ⟨f.nameSpan, .missingReturn f.name⟩

/-- The blocks of a function. -/
def blocks (symbols : SymbolTable) (returnsVoid : Bool) (f : Typed.Function) :
    Except Fault (List IR.Block) := do
  let ((), builder) ← code symbols returnsVoid f Builder.start
  complete returnsVoid f builder.blocks

/-- Adds a function to a module. -/
def addFunction (symbols : SymbolTable) (m : IR.Module) (f : Typed.Function) :
    Except Fault IR.Module :=
  match (symbols.symbolAt f.symbol).signature? with
  | none => .error ⟨f.nameSpan, .notAFunction f.name⟩
  | some signature =>
    let params := namedShapes signature.params
    let ret := signature.returnType.shape
    match f.body with
    | .empty =>
      let external : IR.External :=
        ⟨f.name, f.library, params, ret, signature.convention, signature.varArgs⟩
      .ok { m with externals := m.externals ++ [external] }
    | _ => do
      let blocks ← blocks symbols signature.returnType.isVoid f
      let function : IR.Function :=
        ⟨f.name, params, ret, signature.convention, blocks, Builder.entry⟩
      .ok { m with functions := m.functions ++ [function] }

/-- Adds a declaration to a module. -/
def addDecl (symbols : SymbolTable) (m : IR.Module) : Typed.Decl → Except Fault IR.Module
  | .struct symbol _ =>
    match (symbols.symbolAt symbol).ty with
    | .struct name _ fields =>
      .ok { m with structs := m.structs ++ [⟨name, namedShapes fields⟩] }
    | _ => .ok m
  | .enum _ _ => .ok m
  | .function f => addFunction symbols m f

end Lowering

/-- Lowers a checked program to a module of the given name. -/
def Typed.Program.lower (p : Typed.Program) (name : String) : Except Fault IR.Module :=
  p.decls.foldlM (Lowering.addDecl p.symbols) (.empty name)

end Laye
