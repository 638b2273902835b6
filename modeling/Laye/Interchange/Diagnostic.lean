import Laye.Diagnostic
import Laye.Interchange.Span

/-!
# Diagnostics as JSON

A diagnostic is tagged with its severity; a list of them is a record with the single field
`items`.
-/

namespace Laye

namespace Severity

/-- The name of a severity in JSON. -/
def name : Severity → String
  | .information => "Information"
  | .warning => "Warning"
  | .error => "Error"

/-- All severities. -/
def all : List Severity := [.information, .warning, .error]

/-- Reads a severity. -/
def decoder : Decoder Severity := .enumeration all name

end Severity

namespace Diagnostic

/-- A diagnostic as JSON. -/
def toJson (d : Diagnostic) : Json :=
  .tagged d.severity.name (.object [("span", d.span.toJson), ("message", .string d.message)])

/-- Reads what a severity is the tag of. -/
def payload (severity : Severity) : Decoder Diagnostic :=
  ((Span.record.and (Record.field "message" .string)).map fun (span, message) =>
    ⟨severity, span, message⟩).decoder

/-- Reads a diagnostic. -/
def decoder : Decoder Diagnostic :=
  .variant (Severity.all.map fun severity => (severity.name, .payload (payload severity)))

/-- Diagnostics as JSON. -/
def listToJson (ds : List Diagnostic) : Json := .object [("items", .array (ds.map toJson))]

/-- Reads diagnostics. -/
def listDecoder : Decoder (List Diagnostic) := (Record.field "items" decoder.list).decoder

end Diagnostic

end Laye
