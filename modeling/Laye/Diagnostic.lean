import Laye.Source

/-!
# Diagnostics

What a compilation reports: messages with a severity and a place, in the order in which they were
found. An `ErrorGuard` remembers how many errors there were when a pass began, so that a pass which
gives no result can show that it said why.
-/

namespace Laye

/-- How grave a diagnostic is. -/
inductive Severity where
  | information
  | warning
  | error
deriving DecidableEq, Repr, Inhabited

/-- The word for a severity in reports for people. -/
def Severity.label : Severity → String
  | .information => "info"
  | .warning => "warning"
  | .error => "error"

/-- A message about a place in the source. -/
structure Diagnostic where
  severity : Severity
  span : Span
  message : String
deriving DecidableEq, Repr, Inhabited

namespace Diagnostic

/-- Whether the diagnostic is an error. -/
def isError (d : Diagnostic) : Bool := d.severity == .error

/-- The line that shows a diagnostic to people. -/
def text (d : Diagnostic) : String :=
  d.severity.label ++ ": " ++ d.span.text ++ ": " ++ d.message

/-- How many diagnostics have the severity. -/
def count (severity : Severity) (ds : List Diagnostic) : Nat :=
  ds.countP (·.severity == severity)

/-- How many diagnostics are errors. -/
def errorCount (ds : List Diagnostic) : Nat := count .error ds

/-- Whether some diagnostic is an error. -/
def hasErrors (ds : List Diagnostic) : Bool := ds.any isError

end Diagnostic

/-- The number of errors at the start of a pass. -/
structure ErrorGuard where
  baseline : Nat
deriving DecidableEq, Repr

namespace ErrorGuard

/-- The guard of a pass that starts with these diagnostics. -/
def start (ds : List Diagnostic) : ErrorGuard := ⟨Diagnostic.errorCount ds⟩

/-- Whether errors were added since the pass began. -/
def hasNewErrors (g : ErrorGuard) (ds : List Diagnostic) : Bool :=
  g.baseline < Diagnostic.errorCount ds

/-- Passes when the pass explained itself; otherwise gives the text of the broken promise. -/
def demandErrors (g : ErrorGuard) (ds : List Diagnostic) (context : String) : Except String Unit :=
  if g.hasNewErrors ds then .ok ()
  else .error ("No error diagnostics generated when " ++ context)

end ErrorGuard

end Laye
