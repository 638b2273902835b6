import Laye.IR.Basic

/-!
# Machines

A `Machine` gives the operations of the intermediate representation a meaning: arithmetic, memory,
and what a call does. Nothing is asked of the operations, so a statement about every machine holds
whatever the numbers, the memory and the other functions are. Trees (`Laye.Proofs.Meaning.Tree`) and
code (`Laye.Proofs.Meaning.Code`) are run by the same machine.
-/

namespace Laye

/-- Something that reads and changes the state, and may fail to finish. -/
abbrev Effect (State α : Type) : Type := StateT State Option α

/-- A step from a value to a part of it. -/
inductive Projection (Val : Type) where
  /-- The element at an index, of a type. -/
  | element (ty : IR.Ty) (index : Val)
  /-- The field at a place, of a struct. -/
  | field (struct : String) (place : Nat)

/-- What the operations of programs do to values and to the state. -/
structure Machine (Val State : Type) where
  constant : IR.Constant → Val
  /-- The function of a name, as a value. -/
  global : String → Val
  /-- What a call leaves that gives no value. -/
  unit : Val
  /-- Which way a branch goes on a value. -/
  truth : Val → Option Bool
  load : IR.Ty → Val → Effect State Val
  /-- Stores, at an address, a value. -/
  store : Val → Val → Effect State Unit
  binary : IR.BinaryOp → IR.Ty → Val → Val → Effect State Val
  unary : IR.UnaryOp → Val → Effect State Val
  /-- Converts a value from a type to another. -/
  cast : IR.Ty → IR.Ty → Val → Effect State Val
  materialize : IR.Ty → Val → Effect State Val
  sliceData : Val → Effect State Val
  /-- The address of a part of what is at an address. -/
  address : Projection Val → Val → Effect State Val
  /-- A part of a value that is not at any address. -/
  project : Projection Val → Val → Val
  /-- What the function of a name does with its arguments. -/
  call : String → List Val → Effect State Val

namespace Machine

variable {Val State : Type} (M : Machine Val State)

/-- Decides a branch. -/
def test (v : Val) : Effect State Bool := fun s => (M.truth v).map (·, s)

/-- Stores the first value of a variable, if it has one. -/
def storeInitial (a : Val) : Option Val → Effect State Unit
  | some v => M.store a v
  | none => pure ()

def projectAll (path : List (Projection Val)) (v : Val) : Val :=
  path.foldl (fun whole projection => M.project projection whole) v

/-- A longer path goes on from where the shorter one leads. -/
theorem projectAll_append (path : List (Projection Val)) (projection : Projection Val) (v : Val) :
    M.projectAll (path ++ [projection]) v = M.project projection (M.projectAll path v) := by
  simp [projectAll]

end Machine

end Laye
