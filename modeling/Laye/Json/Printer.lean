import Laye.Json.Basic

/-!
# Writing JSON

One writer gives both layouts: compact, with no blank anywhere, and indented, with each item and
member on a line of its own, two spaces per level, and a blank after each colon.
-/

namespace Laye.Json

/-- A character inside a JSON string. Quotes, backslashes and controls are escaped. -/
def escapedChar (c : Char) : List Char :=
  if c = '"' then ['\\', '"']
  else if c = '\\' then ['\\', '\\']
  else if c = '\x08' then ['\\', 'b']
  else if c = '\t' then ['\\', 't']
  else if c = '\n' then ['\\', 'n']
  else if c = '\x0c' then ['\\', 'f']
  else if c = '\r' then ['\\', 'r']
  else if c.toNat < 0x20 then
    ['\\', 'u', '0', '0', Nat.digitChar (c.toNat / 16), Nat.digitChar (c.toNat % 16)]
  else [c]

/-- A JSON string literal. -/
def stringChars (s : String) : List Char := '"' :: (s.toList.flatMap escapedChar ++ ['"'])

/-- What stands before an item at a level: nothing, or a new line with its indent. -/
def gap (indented : Bool) (level : Nat) : List Char :=
  if indented then '\n' :: List.replicate (2 * level) ' ' else []

/-- What stands between a key and its value. -/
def colon (indented : Bool) : List Char := if indented then [':', ' '] else [':']

mutual

/-- The characters of a value at a level of nesting. -/
def chars (indented : Bool) (level : Nat) : Json → List Char
  | .null => ['n', 'u', 'l', 'l']
  | .bool true => ['t', 'r', 'u', 'e']
  | .bool false => ['f', 'a', 'l', 's', 'e']
  | .number n => n.chars
  | .string s => stringChars s
  | .array [] => ['[', ']']
  | .array (v :: vs) =>
    '[' :: (gap indented (level + 1) ++ chars indented (level + 1) v ++
      itemsChars indented level vs)
  | .object [] => ['\x7b', '\x7d']
  | .object ((k, v) :: ms) =>
    '\x7b' :: (gap indented (level + 1) ++ stringChars k ++ colon indented ++
      chars indented (level + 1) v ++ membersChars indented level ms)
  | .flaw _ => []

/-- What follows the first item of an array. -/
def itemsChars (indented : Bool) (level : Nat) : List Json → List Char
  | [] => gap indented level ++ [']']
  | v :: vs =>
    ',' :: (gap indented (level + 1) ++ chars indented (level + 1) v ++
      itemsChars indented level vs)

/-- What follows the first member of an object. -/
def membersChars (indented : Bool) (level : Nat) : List (String × Json) → List Char
  | [] => gap indented level ++ ['\x7d']
  | (k, v) :: ms =>
    ',' :: (gap indented (level + 1) ++ stringChars k ++ colon indented ++
      chars indented (level + 1) v ++ membersChars indented level ms)

end

/-- The text of a value without blanks. -/
def compact (j : Json) : String := String.ofList (j.chars false 0)

/-- The text of a value over several lines. -/
def pretty (j : Json) : String := String.ofList (j.chars true 0)

end Laye.Json
