import Superstep.Binary64.Shortest
import Superstep.VertexMap
import Superstep.Text.Numeral

/-!
# JSON values

A number keeps the form in which it was read: a natural number of sixty-four bits, the negative of
one, or a binary64 number for everything else. Only the first form counts as an integer where a
reader asks for one.

`Json.render` writes a value without blanks. An object is written in the order of its fields, so
whoever builds one decides the order; `Json.ofVertexMap` sorts its keys as strings, which puts
`"10"` before `"2"`.
-/

namespace Superstep

namespace Json

/-- A number as it was read. -/
inductive Number where
  | natural (n : Nat)
  /-- The integer `-n`, for a positive `n`. -/
  | negative (n : Nat)
  | real (x : Binary64)
deriving DecidableEq

end Json

/-- A JSON value. -/
inductive Json where
  | null
  | bool (b : Bool)
  | number (n : Json.Number)
  | string (s : String)
  | array (items : List Json)
  | object (fields : List (String × Json))

namespace Json

instance : Inhabited Json := ⟨null⟩

/-! ### Building values -/

/-- A natural number as a value. -/
def ofNat (n : Nat) : Json := number (.natural n)

/-- A finite number as itself. JSON has no NaN and no infinities; they become `null`. -/
def ofBinary64 (x : Binary64) : Json := if x.isFinite then number (.real x) else null

/-- The text of a vertex where it is the key of an object. -/
def vertexKey (id : VertexId) : String := String.ofList (Text.digitsOfNat id.toNat)

/-- The fields of an object in the order of their keys as strings. -/
def sortFields (fields : List (String × Json)) : List (String × Json) :=
  fields.mergeSort fun a b => a.1 ≤ b.1

/-- A map from vertices as an object. -/
def ofVertexMap {α : Type} (f : α → Json) (m : VertexMap α) : Json :=
  object (sortFields (m.entries.map fun entry => (vertexKey entry.1, f entry.2)))

/-! ### Writing values -/

/-- A point is written for decimals from `0.00001` up to sixteen digits before it, and an exponent
for all others. -/
def decimalFormat : DecimalFormat := ⟨-4, 16⟩

/-- Two hexadecimal digits. -/
def hexPair (n : Nat) : List Char := [Nat.digitChar (n / 16), Nat.digitChar (n % 16)]

/-- A character inside a string. Beside the quote and the backslash, only controls are escaped. -/
def escape (c : Char) : List Char :=
  if c = '"' then ['\\', '"']
  else if c = '\\' then ['\\', '\\']
  else if c = '\x08' then ['\\', 'b']
  else if c = '\x0c' then ['\\', 'f']
  else if c = '\n' then ['\\', 'n']
  else if c = '\r' then ['\\', 'r']
  else if c = '\t' then ['\\', 't']
  else if c.toNat < 0x20 then ['\\', 'u', '0', '0'] ++ hexPair c.toNat
  else [c]

/-- A string between quotes. -/
def renderString (s : String) : List Char := '"' :: s.toList.flatMap escape ++ ['"']

/-- The text of a number. -/
def Number.render : Number → List Char
  | .natural n => Text.digitsOfNat n
  | .negative n => '-' :: Text.digitsOfNat n
  | .real x => x.spell decimalFormat

mutual

/-- The characters of a value, without blanks. -/
def renderChars : Json → List Char
  | null => ['n', 'u', 'l', 'l']
  | bool true => ['t', 'r', 'u', 'e']
  | bool false => ['f', 'a', 'l', 's', 'e']
  | number n => n.render
  | string s => renderString s
  | array items => '[' :: renderItems items
  | object fields => '\x7b' :: renderFields fields

/-- The items of an array and the bracket that closes it. -/
def renderItems : List Json → List Char
  | [] => [']']
  | [item] => renderChars item ++ [']']
  | item :: rest => renderChars item ++ ',' :: renderItems rest

/-- The fields of an object and the brace that closes it. -/
def renderFields : List (String × Json) → List Char
  | [] => ['\x7d']
  | [(key, value)] => renderString key ++ ':' :: (renderChars value ++ ['\x7d'])
  | (key, value) :: rest =>
    renderString key ++ ':' :: (renderChars value ++ ',' :: renderFields rest)

end

/-- The text of a value, without blanks. -/
def render (value : Json) : String := String.ofList value.renderChars

end Json

end Superstep
