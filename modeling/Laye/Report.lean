import Laye.Diagnostic

/-!
# Reports

What a compilation tells the outside: whether it succeeded, what it found and where, and how much
it looked at. A report is plain data; `Report.text` is its form for people.
-/

namespace Laye

namespace Report

/-- Where an entry points to, by lines and columns. -/
structure Place where
  file : String
  line : Nat
  column : Nat
  endLine : Nat
  endColumn : Nat
deriving DecidableEq, Repr, Inhabited

/-- One diagnostic of a report. -/
structure Entry where
  severity : Severity
  message : String
  /-- Missing if the diagnostic is about no place. -/
  location : Option Place
deriving DecidableEq, Repr, Inhabited

/-- How much a compilation looked at. -/
structure Stats where
  checkTimeMs : Nat := 0
  lowerTimeMs : Nat := 0
  /-- Functions that have a body. -/
  functions : Nat := 0
  /-- Functions that have none. -/
  externals : Nat := 0
  /-- Structs and enums. -/
  types : Nat := 0
  errors : Nat := 0
  warnings : Nat := 0
deriving DecidableEq, Repr, Inhabited

/-- The place of a span. -/
def Place.ofSpan? (s : Span) : Option Place :=
  if s.isNowhere then none
  else some ⟨s.source, s.start.line, s.start.column, s.stop.line, s.stop.column⟩

/-- The entry of a diagnostic. -/
def Entry.ofDiagnostic (d : Diagnostic) : Entry :=
  ⟨d.severity, d.message, Place.ofSpan? d.span⟩

/-- The line that shows an entry to people. -/
def Entry.text (e : Entry) : String :=
  match e.location with
  | some place =>
    place.file ++ ":" ++ toString place.line ++ ":" ++ toString place.column ++ ": " ++
      e.severity.label ++ ": " ++ e.message
  | none => e.severity.label ++ ": " ++ e.message

end Report

/-- The report of a compilation. -/
structure Report where
  /-- There is no error among the entries. -/
  success : Bool
  /-- The names of the sources, in order. -/
  sources : List String
  entries : List Report.Entry
  stats : Report.Stats
deriving DecidableEq, Repr, Inhabited

namespace Report

/-- The report of diagnostics. The numbers of errors and warnings are counted anew. -/
def ofDiagnostics (sources : List String) (ds : List Diagnostic) (stats : Stats) : Report where
  success := !Diagnostic.hasErrors ds
  sources := sources
  entries := ds.map Entry.ofDiagnostic
  stats :=
    { stats with errors := Diagnostic.errorCount ds, warnings := Diagnostic.count .warning ds }

/-- A line for each entry, and one that sums up. -/
def text (r : Report) : String :=
  "\n".intercalate (r.entries.map Entry.text ++
    [toString r.stats.errors ++ " error(s), " ++ toString r.stats.warnings ++ " warning(s)"])

end Report

end Laye
