import Laye.Json.Reader
import Laye.Source

/-!
# Decoding JSON

A `Decoder` turns a JSON value into a value of the library and is told how many containers may
still nest. Three forms cover all the shapes of the interchange format:

* `list` for arrays;
* `Record.decoder` for a group of named fields, given as an object in any order or as an array in
  the record's own order. Unknown members are skipped, a repeated field is refused;
* `variant` for alternatives: the name of one without a payload, or an object with the name as its
  only key.

Decoding follows the order of the text, so the error it gives is the first one in the text.
-/

namespace Laye

/-- Why a text could not be decoded: it does not have the shape asked for, or it holds a span
between two sources. -/
inductive DecodeError where
  | malformed
  | acrossSources (cause : AcrossSources)
deriving DecidableEq, Repr

/-- Decodes a value in which at most so many containers may nest. -/
abbrev Decoder (α : Type) : Type := Nat → Json → Except DecodeError α

namespace Decoder

variable {α β : Type}

/-- A string. -/
def string : Decoder String
  | _, .string s => .ok s
  | _, _ => .error .malformed

/-- A truth value. -/
def bool : Decoder Bool
  | _, .bool b => .ok b
  | _, _ => .error .malformed

/-- A natural number below `bound`, written without fraction or exponent. -/
def natBelow (bound : Nat) : Decoder Nat
  | _, .number n =>
    match n.natural? with
    | some k => if k < bound then .ok k else .error .malformed
    | none => .error .malformed
  | _, _ => .error .malformed

/-- A number of 64 bits. -/
def word64 : Decoder Nat := natBelow (Nat.pow 2 64)

/-- A number of 32 bits. -/
def word32 : Decoder Nat := natBelow (Nat.pow 2 32)

/-- A float; an integer will do. -/
def float : Decoder Float
  | _, .number n =>
    match n.toFloat? with
    | some x => .ok x
    | none => .error .malformed
  | _, _ => .error .malformed

/-- A value or `null`. -/
def nullable (d : Decoder α) : Decoder (Option α)
  | _, .null => .ok none
  | depth, j => (d depth j).map some

/-- Decodes items one after the other. -/
def items (d : Json → Except DecodeError α) : List Json → Except DecodeError (List α)
  | [] => .ok []
  | j :: js => do
    let a ← d j
    let as ← items d js
    .ok (a :: as)

/-- Makes something of a value. -/
def map (f : α → β) (d : Decoder α) : Decoder β
  | depth, j => (d depth j).map f

/-- A value that is checked once it is complete. -/
def refine (d : Decoder α) (f : α → Except DecodeError β) : Decoder β
  | depth, j => d depth j >>= f

/-- An array. -/
def list (d : Decoder α) : Decoder (List α)
  | depth + 1, .array js => items (d depth) js
  | _, _ => .error .malformed

end Decoder

/-- The fields of a record. While the members of an object are read, what they gave so far is kept
in `Slots`. -/
structure Record (α : Type) where
  Slots : Type
  empty : Slots
  /-- Takes a member in. There is no result when the record has no field of that name. -/
  put : Nat → String → Json → Slots → Option (Except DecodeError Slots)
  /-- The record, once all members are in. -/
  finish : Slots → Except DecodeError α
  /-- The record from the front of an array's items, and the items that are left. -/
  take : Nat → List Json → Except DecodeError (α × List Json)

namespace Record

variable {α β : Type}

/-- The member goes into an empty slot. -/
def fill (name : String) (d : Decoder α) (depth : Nat) (key : String) (j : Json) :
    Option α → Option (Except DecodeError (Option α))
  | slot =>
    if key = name then
      some (if slot.isSome then .error .malformed else (d depth j).map some)
    else none

/-- The next item of an array. -/
def next (d : Decoder α) (depth : Nat) : List Json → Except DecodeError (α × List Json)
  | [] => .error .malformed
  | j :: js => (d depth j).map fun a => (a, js)

/-- A field that must be there. -/
def field (name : String) (d : Decoder α) : Record α where
  Slots := Option α
  empty := none
  put := fill name d
  finish
    | some a => .ok a
    | none => .error .malformed
  take := next d

/-- A field that may be `null`, or left out of an object. -/
def optional (name : String) (d : Decoder α) : Record (Option α) where
  Slots := Option (Option α)
  empty := none
  put := fill name d.nullable
  finish slot := .ok slot.join
  take := next d.nullable

/-- The fields of one record followed by those of another. -/
def and (a : Record α) (b : Record β) : Record (α × β) where
  Slots := a.Slots × b.Slots
  empty := (a.empty, b.empty)
  put depth key j slots :=
    match a.put depth key j slots.1 with
    | some r => some (r.map fun s => (s, slots.2))
    | none => (b.put depth key j slots.2).map fun r => r.map fun s => (slots.1, s)
  finish slots := do
    let x ← a.finish slots.1
    let y ← b.finish slots.2
    .ok (x, y)
  take depth js := do
    let (x, js) ← a.take depth js
    let (y, js) ← b.take depth js
    .ok ((x, y), js)

/-- Makes something of a record. -/
def map (f : α → β) (a : Record α) : Record β where
  Slots := a.Slots
  empty := a.empty
  put := a.put
  finish slots := (a.finish slots).map f
  take depth js := (a.take depth js).map fun (x, js) => (f x, js)

/-- Takes the members of an object in. What an unknown member holds does not matter, as long as
the text is JSON and its key is text. -/
def members (r : Record α) (depth : Nat) :
    List (String × Json) → r.Slots → Except DecodeError r.Slots
  | [], slots => .ok slots
  | (key, j) :: ms, slots =>
    match r.put depth key j slots with
    | some result => result >>= members r depth ms
    | none =>
      match j with
      | .flaw .ended | .flaw .halfPairKey => .error .malformed
      | _ => members r depth ms slots

/-- Decodes a record. -/
def decoder (r : Record α) : Decoder α
  | depth + 1, .object ms => r.members depth ms r.empty >>= r.finish
  | depth + 1, .array js => do
    let (a, rest) ← r.take depth js
    if rest.isEmpty then .ok a else .error .malformed
  | _, _ => .error .malformed

end Record

/-- An alternative: it stands for a value of its own, or has a payload that makes one. -/
inductive Alternative (α : Type) where
  | plain (value : α)
  | payload (decoder : Decoder α)

namespace Alternative

variable {α : Type}

/-- Decodes the payload of the alternative that was named. -/
def decode (depth : Nat) (j : Json) : Alternative α → Except DecodeError α
  | .plain a =>
    match j with
    | .null => .ok a
    | _ => .error .malformed
  | .payload d => d depth j

end Alternative

namespace Decoder

variable {α : Type}

/-- One of several alternatives. -/
def variant (alternatives : List (String × Alternative α)) : Decoder α
  | _, .string name =>
    match alternatives.lookup name with
    | some (.plain a) => .ok a
    | _ => .error .malformed
  | depth + 1, .object ((name, j) :: ms) =>
    match alternatives.lookup name with
    | some alternative => do
      let a ← alternative.decode depth j
      if ms.isEmpty then .ok a else .error .malformed
    | none => .error .malformed
  | _, _ => .error .malformed

/-- One of several values without payloads, by its name. -/
def enumeration (values : List α) (name : α → String) : Decoder α :=
  variant (values.map fun a => (name a, .plain a))

/-- How many containers of a text may nest. -/
def maxDepth : Nat := 127

/-- A decoder for a shape that holds smaller values of its own kind, for at most so many levels of
them. -/
def unroll (shape : Decoder α → Decoder α) : Nat → Decoder α
  | 0 => fun _ _ => .error .malformed
  | levels + 1 => shape (unroll shape levels)

/-- A decoder for a shape that holds smaller values of its own kind. Every level is a container, so
there are at most `maxDepth` of them. -/
def nested (shape : Decoder α → Decoder α) : Decoder α := unroll shape maxDepth

/-- Decodes a whole text. -/
def run (d : Decoder α) (text : String) : Except DecodeError α := do
  let (j, complete) := Json.read text
  let a ← d maxDepth j
  if complete then .ok a else .error .malformed

end Decoder

end Laye
