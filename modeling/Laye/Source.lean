/-!
# Places in source text

A `Location` is a point in a named source and a `Span` is the stretch between two points of one
source. Spans come from `Span.between`, which puts its ends in order and refuses two sources, and
from `Span.combine`, which joins two spans of one source. `Span.nowhere` stands for "no place" and
is neutral for `combine`.
-/

namespace Laye

/-- A point in a named source. `offset` counts bytes from the start of the text. -/
structure Location where
  source : String
  offset : Nat
  line : Nat
  column : Nat
deriving DecidableEq, Repr, Inhabited

namespace Location

/-- The location of the span that stands for no place. -/
def nowhere : Location := ⟨"", 0, 0, 0⟩

/-- Locations are ordered by source name, then by offset. -/
protected def lt (a b : Location) : Prop :=
  a.source < b.source ∨ a.source = b.source ∧ a.offset < b.offset

instance : LT Location := ⟨Location.lt⟩

instance (a b : Location) : Decidable (a < b) :=
  inferInstanceAs (Decidable (_ ∨ _))

/-- The earlier of two locations; the first one when neither precedes the other. -/
def earlier (a b : Location) : Location := if b < a then b else a

/-- The later of two locations; the second one when neither precedes the other. -/
def later (a b : Location) : Location := if b < a then a else b

/-- The text of a location in messages: `source:line:column`. -/
def text (a : Location) : String :=
  a.source ++ ":" ++ toString a.line ++ ":" ++ toString a.column

end Location

/-- Why two locations do not bound a span: they lie in two sources. -/
structure AcrossSources where
  start : String
  stop : String
deriving DecidableEq, Repr

/-- The wording of the refusal. -/
def AcrossSources.message (e : AcrossSources) : String :=
  "Source span may only be constructed from two locations in the same source (" ++
    e.start ++ " vs " ++ e.stop ++ ")"

/-- The stretch of source between two locations. -/
structure Span where
  start : Location
  stop : Location
deriving DecidableEq, Repr, Inhabited

namespace Span

/-- The span between two locations of one source, whichever comes first. -/
def between (a b : Location) : Except AcrossSources Span :=
  if a.source = b.source then
    if b.offset < a.offset then .ok ⟨b, a⟩ else .ok ⟨a, b⟩
  else
    .error ⟨a.source, b.source⟩

/-- The empty span at a location. -/
def point (a : Location) : Span := ⟨a, a⟩

/-- The span that stands for no place. -/
def nowhere : Span := point .nowhere

/-- Whether the span stands for no place. -/
def isNowhere (s : Span) : Bool := s == nowhere

/-- The name of the source the span lies in. -/
def source (s : Span) : String := s.start.source

/-- The smallest span that covers both. `nowhere` is neutral, and a span of another source adds
nothing to the first one. -/
def combine (a b : Span) : Span :=
  if a.isNowhere then b
  else if b.isNowhere ∨ a.source ≠ b.source then a
  else ⟨a.start.earlier b.start, a.stop.later b.stop⟩

/-- How many bytes the span covers. -/
def length (s : Span) : Nat := s.stop.offset - s.start.offset

/-- Whether the span covers no byte. -/
def isEmpty (s : Span) : Bool := s.start.offset == s.stop.offset

/-- The text of a span in messages is that of its start. -/
def text (s : Span) : String := s.start.text

/-- Splits text after `n` bytes, when that does not cut a character in two. -/
def splitBytes : Nat → List Char → Option (List Char × List Char)
  | 0, cs => some ([], cs)
  | _ + 1, [] => none
  | n + 1, c :: cs =>
    if n + 1 < c.utf8Size then none
    else (splitBytes (n + 1 - c.utf8Size) cs).map fun (before, after) => (c :: before, after)

/-- The text that the span covers, if both ends are character boundaries of it. -/
def slice (s : Span) (text : String) : Option String :=
  if s.start.offset ≤ s.stop.offset then
    (splitBytes s.start.offset text.toList).bind fun (_, rest) =>
      (splitBytes s.length rest).map fun (covered, _) => String.ofList covered
  else
    none

end Span

end Laye
