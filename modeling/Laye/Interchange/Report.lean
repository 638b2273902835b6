import Laye.Interchange.Diagnostic
import Laye.Json.Printer
import Laye.Report

/-!
# Reports as JSON

A report as a record of its parts, in two layouts: on one line, and indented for people.
-/

namespace Laye.Report

namespace Place

/-- A place as JSON. -/
def toJson (p : Place) : Json :=
  .object
    [("file", .string p.file), ("line", .nat p.line), ("column", .nat p.column),
      ("end_line", .nat p.endLine), ("end_column", .nat p.endColumn)]

/-- Reads a place. -/
def decoder : Decoder Place :=
  ((Record.field "file" .string).and <|
    (Record.field "line" .word32).and <|
    (Record.field "column" .word32).and <|
    (Record.field "end_line" .word32).and <|
    Record.field "end_column" .word32).map
    (fun (file, line, column, endLine, endColumn) => ⟨file, line, column, endLine, endColumn⟩)
  |>.decoder

end Place

namespace Entry

/-- An entry as JSON. -/
def toJson (e : Entry) : Json :=
  .object
    [("severity", .string e.severity.name), ("message", .string e.message),
      ("location", .option Place.toJson e.location)]

/-- Reads an entry. -/
def decoder : Decoder Entry :=
  ((Record.field "severity" Severity.decoder).and <|
    (Record.field "message" .string).and <|
    Record.optional "location" Place.decoder).map
    (fun (severity, message, location) => ⟨severity, message, location⟩)
  |>.decoder

end Entry

namespace Stats

/-- Statistics as JSON. -/
def toJson (s : Stats) : Json :=
  .object
    [("check_time_ms", .nat s.checkTimeMs), ("lower_time_ms", .nat s.lowerTimeMs),
      ("function_count", .nat s.functions), ("extern_count", .nat s.externals),
      ("type_count", .nat s.types), ("error_count", .nat s.errors),
      ("warning_count", .nat s.warnings)]

/-- Reads statistics. -/
def decoder : Decoder Stats :=
  ((Record.field "check_time_ms" .word64).and <|
    (Record.field "lower_time_ms" .word64).and <|
    (Record.field "function_count" .word64).and <|
    (Record.field "extern_count" .word64).and <|
    (Record.field "type_count" .word64).and <|
    (Record.field "error_count" .word64).and <|
    Record.field "warning_count" .word64).map
    (fun (checkTimeMs, lowerTimeMs, functions, externals, types, errors, warnings) =>
      ⟨checkTimeMs, lowerTimeMs, functions, externals, types, errors, warnings⟩)
  |>.decoder

end Stats

/-- A report as JSON. -/
def toJson (r : Report) : Json :=
  .object
    [("success", .bool r.success), ("sources", .array (r.sources.map .string)),
      ("diagnostics", .array (r.entries.map Entry.toJson)), ("stats", r.stats.toJson)]

/-- Reads a report. -/
def decoder : Decoder Report :=
  ((Record.field "success" .bool).and <|
    (Record.field "sources" (Decoder.list .string)).and <|
    (Record.field "diagnostics" Entry.decoder.list).and <|
    Record.field "stats" Stats.decoder).map
    (fun (success, sources, entries, stats) => ⟨success, sources, entries, stats⟩)
  |>.decoder

/-- The report as indented JSON. -/
def pretty (r : Report) : String := r.toJson.pretty

/-- The report as JSON on one line. -/
def compact (r : Report) : String := r.toJson.compact

end Laye.Report
