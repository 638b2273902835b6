import Laye.Json.Basic

/-!
# Reading JSON

`Json.read` takes a text apart as far as it is JSON. It never fails: where the text stops being
JSON, the value and every container around it end in the flaw `ended`. A reader of the value meets
what the text says in order of the text, and so reports the first thing that is wrong with it.
-/

namespace Laye.Json

/-- The blanks that may stand between tokens. -/
def isBlank (c : Char) : Bool := c == ' ' || c == '\t' || c == '\n' || c == '\r'

/-- The text from its first character that is not blank. -/
def skipBlanks (cs : List Char) : List Char := cs.dropWhile isBlank

/-! ### Strings -/

/-- The value of a hexadecimal digit. -/
def hexDigit? (c : Char) : Option Nat :=
  if c.isDigit then some (c.toNat - '0'.toNat)
  else if 'a' ≤ c ∧ c ≤ 'f' then some (c.toNat - 'a'.toNat + 10)
  else if 'A' ≤ c ∧ c ≤ 'F' then some (c.toNat - 'A'.toNat + 10)
  else none

/-- The value of four hexadecimal digits. -/
def hexQuad? (a b c d : Char) : Option Nat :=
  match hexDigit? a, hexDigit? b, hexDigit? c, hexDigit? d with
  | some a, some b, some c, some d => some (((a * 16 + b) * 16 + c) * 16 + d)
  | _, _, _, _ => none

/-- The code unit that a one-letter escape stands for. -/
def escapeUnit? : Char → Option Nat
  | '"' => some 0x22
  | '\\' => some 0x5c
  | '/' => some 0x2f
  | 'b' => some 0x08
  | 'f' => some 0x0c
  | 'n' => some 0x0a
  | 'r' => some 0x0d
  | 't' => some 0x09
  | _ => none

/-- The code units of a string up to its closing quote, and what follows it. A character stands
for its code point; an escape may stand for half of a surrogate pair. -/
def scanString : List Char → Option (List Nat × List Char)
  | [] => none
  | '"' :: rest => some ([], rest)
  | '\\' :: 'u' :: a :: b :: c :: d :: rest =>
    match hexQuad? a b c d with
    | some n => (scanString rest).map fun (units, rest) => (n :: units, rest)
    | none => none
  | '\\' :: c :: rest =>
    match escapeUnit? c with
    | some n => (scanString rest).map fun (units, rest) => (n :: units, rest)
    | none => none
  | c :: rest =>
    if c.toNat < 0x20 ∨ c = '\\' then none
    else (scanString rest).map fun (units, rest) => (c.toNat :: units, rest)

/-- Whether a code unit is the first half of a surrogate pair. -/
def isHighHalf (n : Nat) : Bool := 0xd800 ≤ n && n < 0xdc00

/-- Whether a code unit is the second half of a surrogate pair. -/
def isLowHalf (n : Nat) : Bool := 0xdc00 ≤ n && n < 0xe000

/-- The characters that code units stand for; none when half of a surrogate pair stands alone. -/
def joinPairs : List Nat → Option (List Char)
  | [] => some []
  | [n] => if isHighHalf n || isLowHalf n then none else some [Char.ofNat n]
  | n :: m :: rest =>
    if isHighHalf n then
      if isLowHalf m then
        (joinPairs rest).map (Char.ofNat (0x10000 + (n - 0xd800) * 0x400 + (m - 0xdc00)) :: ·)
      else none
    else if isLowHalf n then none
    else (joinPairs (m :: rest)).map (Char.ofNat n :: ·)

/-! ### Values -/

mutual

/-- The value at the front of a text, and what follows it if the text is JSON up to there. Each
step spends one of `fuel` and at least one character. -/
def value : Nat → List Char → Json × Option (List Char)
  | 0, _ => (.flaw .ended, none)
  | fuel + 1, cs =>
    match skipBlanks cs with
    | '[' :: rest =>
      match skipBlanks rest with
      | ']' :: rest => (.array [], some rest)
      | rest =>
        match value fuel rest with
        | (v, none) => (.array [v, .flaw .ended], none)
        | (v, some rest) =>
          let (vs, rest) := items fuel rest
          (.array (v :: vs), rest)
    | '\x7b' :: rest =>
      match skipBlanks rest with
      | '\x7d' :: rest => (.object [], some rest)
      | rest =>
        match member fuel rest with
        | (m, none) => (.object [m, ("", .flaw .ended)], none)
        | (m, some rest) =>
          let (ms, rest) := members fuel rest
          (.object (m :: ms), rest)
    | '"' :: rest =>
      match scanString rest with
      | none => (.flaw .ended, none)
      | some (units, rest) =>
        match joinPairs units with
        | some s => (.string (String.ofList s), some rest)
        | none => (.flaw .halfPair, some rest)
    | 'n' :: 'u' :: 'l' :: 'l' :: rest => (.null, some rest)
    | 't' :: 'r' :: 'u' :: 'e' :: rest => (.bool true, some rest)
    | 'f' :: 'a' :: 'l' :: 's' :: 'e' :: rest => (.bool false, some rest)
    | cs =>
      match Numeral.scan cs with
      | some (n, rest) => (.number n, some rest)
      | none => (.flaw .ended, none)

/-- The items of an array after its first one. -/
def items : Nat → List Char → List Json × Option (List Char)
  | 0, _ => ([.flaw .ended], none)
  | fuel + 1, cs =>
    match skipBlanks cs with
    | ']' :: rest => ([], some rest)
    | ',' :: rest =>
      match value fuel rest with
      | (v, none) => ([v, .flaw .ended], none)
      | (v, some rest) =>
        let (vs, rest) := items fuel rest
        (v :: vs, rest)
    | _ => ([.flaw .ended], none)

/-- The member at the front of a text. A member whose key is not Unicode text is kept as a flaw. -/
def member : Nat → List Char → (String × Json) × Option (List Char)
  | 0, _ => (("", .flaw .ended), none)
  | fuel + 1, cs =>
    match skipBlanks cs with
    | '"' :: rest =>
      match scanString rest with
      | none => (("", .flaw .ended), none)
      | some (units, rest) =>
        match skipBlanks rest with
        | ':' :: rest =>
          let (v, rest) := value fuel rest
          match joinPairs units with
          | some key => ((String.ofList key, v), rest)
          | none => (("", .flaw .halfPairKey), rest)
        | _ => (("", .flaw .ended), none)
    | _ => (("", .flaw .ended), none)

/-- The members of an object after its first one. -/
def members : Nat → List Char → List (String × Json) × Option (List Char)
  | 0, _ => ([("", .flaw .ended)], none)
  | fuel + 1, cs =>
    match skipBlanks cs with
    | '\x7d' :: rest => ([], some rest)
    | ',' :: rest =>
      match member fuel rest with
      | (m, none) => ([m, ("", .flaw .ended)], none)
      | (m, some rest) =>
        let (ms, rest) := members fuel rest
        (m :: ms, rest)
    | _ => ([("", .flaw .ended)], none)

end

/-- The value a text holds, and whether nothing but blanks follows it. -/
def read (text : String) : Json × Bool :=
  match value (text.length + 1) text.toList with
  | (v, some rest) => (v, (skipBlanks rest).isEmpty)
  | (v, none) => (v, false)

end Laye.Json
