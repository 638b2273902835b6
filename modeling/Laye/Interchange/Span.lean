import Laye.Json.Decode

/-!
# Spans as JSON

A location is a record of its source, offset, line and column, and a span is a record of its two
ends. A span that is read goes through `Span.between`: its ends come out in order, and ends in two
sources are refused.
-/

namespace Laye

namespace Location

/-- A location as JSON. -/
def toJson (a : Location) : Json :=
  .object
    [("source_name", .string a.source), ("offset", .nat a.offset), ("line", .nat a.line),
      ("column", .nat a.column)]

/-- Reads a location. -/
def decoder : Decoder Location :=
  ((Record.field "source_name" .string).and <|
    (Record.field "offset" .word64).and <|
    (Record.field "line" .word32).and <|
    Record.field "column" .word32).map
    (fun (source, offset, line, column) => ⟨source, offset, line, column⟩)
  |>.decoder

end Location

namespace Span

/-- A span as JSON. -/
def toJson (s : Span) : Json := .object [("start", s.start.toJson), ("end", s.stop.toJson)]

/-- Reads a span. -/
def decoder : Decoder Span :=
  ((Record.field "start" Location.decoder).and (Record.field "end" Location.decoder)).decoder.refine
    fun (a, b) => (Span.between a b).mapError .acrossSources

/-- The field that most records end with. -/
def record : Record Span := .field "span" decoder

end Span

end Laye
