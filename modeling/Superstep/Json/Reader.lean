import Superstep.Json.Scanner

/-!
# Reading JSON

There are two ways to read a text. `readValue` reads a value of any shape. The typed readers
(`readNatural`, `readSeq`, `readFields`, …) know what they want and report a mismatch where it
stands, so of several faults in a text the first from the left is the one that is met, whatever
its kind.

## Nesting

Arrays and objects may be nested `maxDepth` deep, also when typed readers open the outer ones. A
reader that opens a container takes the depth that is left and hands one less to what is inside;
`readValue` recurses on it.

## What is not asked for

A field that nobody asked for is skipped by `skipValue`. Skipping checks the grammar but neither
the nesting, nor the size of numbers, nor the pairing of surrogates.
-/

namespace Superstep.Json

/-- How deeply arrays and objects may be nested. -/
def maxDepth : Nat := 127

/-! ### Inside containers

A container has been opened, and its items or fields follow. `first` says that none was read
yet. -/

/-- Where the next item of an array starts, or `none` at the closing bracket. -/
def nextItem (first : Bool) (s : Bytes) : Except Fault (Option Bytes) :=
  match skipBlanks s with
  | [] => .error .truncated
  | b :: s =>
    if b == 93 then .ok none
    else if first then .ok (some (b :: s))
    else if b == 44 then
      match skipBlanks s with
      | [] => .error .truncated
      | b :: s => if b == 93 then .error .malformed else .ok (some (b :: s))
    else .error .malformed

/-- Behind the closing bracket of an array whose items were all read. -/
def closeArray (s : Bytes) : Except Fault Bytes :=
  match skipBlanks s with
  | [] => .error .truncated
  | b :: s => if b == 93 then .ok s else .error .malformed

/-- Behind the quote that opens the next key of an object, or `none` at the closing brace. -/
def nextKey (first : Bool) (s : Bytes) : Except Fault (Option Bytes) :=
  match skipBlanks s with
  | [] => .error .truncated
  | b :: s =>
    if b == 125 then .ok none
    else if first then if b == 34 then .ok (some s) else .error .malformed
    else if b == 44 then
      match skipBlanks s with
      | [] => .error .truncated
      | b :: s => if b == 34 then .ok (some s) else .error .malformed
    else .error .malformed

/-- Behind the colon of a field. -/
def expectColon (s : Bytes) : Except Fault Bytes := expectByte 58 (skipBlanks s)

/-- Behind the closing brace of an object whose fields were all read. -/
def closeObject (s : Bytes) : Except Fault Bytes := expectByte 125 (skipBlanks s)

/-- The items of an array up to its closing bracket, which stays. -/
def readItems {α : Type} (item : Reader α) : Nat → Bool → Reader (List α)
  | 0, _, _ => .error .truncated
  | fuel + 1, first, s => do
    match ← nextItem first s with
    | none => .ok ([], s)
    | some s =>
      let (a, s) ← item s
      let (rest, s) ← readItems item fuel false s
      .ok (a :: rest, s)

/-- The fields of an object up to its closing brace, which stays. Every field changes a state: its
key is read, and `field` reads the rest of it, from the colon on. -/
def readFieldsFrom {κ σ : Type} (key : Reader κ) (field : κ → σ → Reader σ) :
    Nat → Bool → σ → Reader σ
  | 0, _, _, _ => .error .truncated
  | fuel + 1, first, state, s => do
    match ← nextKey first s with
    | none => .ok (state, s)
    | some s =>
      let (k, s) ← key s
      let (state, s) ← field k state s
      readFieldsFrom key field fuel false state s

/-- The items of an array behind its opening bracket. Every item takes at least one byte. -/
def readArray {α : Type} (item : Reader α) : Reader (List α) := fun s => do
  let (items, s) ← readItems item (s.length + 1) true s
  let s ← closeArray s
  .ok (items, s)

/-- The fields of an object behind its opening brace. Every field takes at least one byte. -/
def readObject {κ σ : Type} (key : Reader κ) (field : κ → σ → Reader σ) (start : σ) : Reader σ :=
  fun s => do
    let (state, s) ← readFieldsFrom key field (s.length + 1) true start s
    let s ← closeObject s
    .ok (state, s)

/-! ### Values of any shape -/

/-- The field of that name replaced, or added at its place in the order of names. -/
def setField (fields : List (String × Json)) (key : String) (value : Json) :
    List (String × Json) :=
  match fields with
  | [] => [(key, value)]
  | (k, v) :: rest =>
    if key < k then (key, value) :: (k, v) :: rest
    else if key = k then (k, value) :: rest
    else (k, v) :: setField rest key value

/-- Reads a value, given a reader for what is inside a container, if one may still be opened. Of
fields with the same key the last counts, and fields are ordered by their keys. -/
def readValueWith (inner : Option (Reader Json)) : Reader Json := fun s =>
  match skipBlanks s with
  | [] => .error .truncated
  | b :: s =>
    if b == 110 then (expectWord ['u', 'l', 'l'] s).map (null, ·)
    else if b == 116 then (expectWord ['r', 'u', 'e'] s).map (bool true, ·)
    else if b == 102 then (expectWord ['a', 'l', 's', 'e'] s).map (bool false, ·)
    else if b == 45 || isDigitByte b then
      (readNumber (b :: s)).map fun (n, s) => (number n, s)
    else if b == 34 then (readString s).map fun (text, s) => (string text, s)
    else match inner with
      | none => .error .malformed
      | some inner =>
        if b == 91 then (readArray inner s).map fun (items, s) => (array items, s)
        else if b == 123 then do
          let (fields, s) ← readObject readString (fun key fields s => do
            let s ← expectColon s
            let (value, s) ← inner s
            .ok (setField fields key value, s)) [] s
          .ok (object fields, s)
        else .error .malformed

/-- Reads a value in which containers may be nested `depth` deep. -/
def readValue : Nat → Reader Json
  | 0 => readValueWith none
  | depth + 1 => readValueWith (some (readValue depth))

/-! ### Values of a known shape -/

/-- The fault of a value that is not of the kind that was asked for. A scalar is read to its end
first, so a fault inside it counts; a container counts as soon as it opens. -/
def wrongKind (s : Bytes) : Fault :=
  match s with
  | 91 :: _ => .mismatched
  | 123 :: _ => .mismatched
  | s => match readValueWith none s with
    | .ok _ => .mismatched
    | .error fault => fault

/-- A number. -/
def readNumeric : Reader Number := fun s =>
  match skipBlanks s with
  | [] => .error .truncated
  | s => if startsNumber s then readNumber s else .error (wrongKind s)

/-- The natural number below `bound` that a number is. -/
def Number.natBelow (bound : Nat) : Number → Except Fault Nat
  | .natural n => if n < bound then .ok n else .error .mismatched
  | .negative _ => .error .mismatched
  | .real _ => .error .mismatched

/-- A natural number below `bound`. -/
def readNatural (bound : Nat) : Reader Nat := fun s => do
  let (n, s) ← readNumeric s
  let n ← n.natBelow bound
  .ok (n, s)

/-- The number of a vertex. -/
def readVertexId : Reader VertexId := fun s => do
  let (n, s) ← readNatural UInt32.size s
  .ok (UInt32.ofNat n, s)

/-- Runs a reader behind the bracket or brace that has to open the value, and hands it the depth
that is left. -/
def opening {α : Type} (bracket : UInt8) (depth : Nat) (read : Nat → Reader α) : Reader α :=
  fun s =>
    match skipBlanks s with
    | [] => .error .truncated
    | b :: s =>
      if b = bracket then
        match depth with
        | 0 => .error .malformed
        | depth + 1 => read depth s
      else .error (wrongKind (b :: s))

/-- An array of which every item is read by `item`. -/
def readSeq {α : Type} (depth : Nat) (item : Reader α) : Reader (List α) :=
  opening 91 depth fun _ => readArray item

/-- A key that is the number of a vertex: digits between quotes, no blank beside them. -/
def readVertexKey : Reader VertexId := fun s =>
  if startsNumber s then do
    let (id, s) ← readVertexId s
    match s with
    | 34 :: s => .ok (id, s)
    | _ => .error .malformed
  else .error .malformed

/-- An object whose keys are vertices. Of fields with the same key the last counts. -/
def readVertexMap {α : Type} (depth : Nat) (value : Reader α) : Reader (VertexMap α) :=
  opening 123 depth fun _ => readObject readVertexKey (fun id m s => do
    let s ← expectColon s
    let (a, s) ← value s
    .ok (m.insert id a, s)) VertexMap.empty

/-! ### Skipping -/

/-- What the skipper expects next. -/
inductive Expectation where
  /-- A value. -/
  | value
  /-- The key of a field. -/
  | key
  /-- The first item or field of the innermost container, or its end. -/
  | start
  /-- A comma, or the end of the innermost container. -/
  | next

/-- Behind the closing quote of a string. Escapes are only checked for their length and letters. -/
def skipString : Nat → Bytes → Except Fault Bytes
  | 0, _ => .error .truncated
  | _, [] => .error .truncated
  | fuel + 1, b :: s =>
    if b == 34 then .ok s
    else if b == 92 then
      match s with
      | [] => .error .truncated
      | c :: s =>
        if c == 117 then do
          let (_, s) ← readHex4 s
          skipString fuel s
        else if (shortEscape? c).isSome then skipString fuel s
        else .error .malformed
    else if b < 32 then .error .malformed
    else skipString fuel s

/-- Behind a number of any size. A number that breaks off is malformed here, also at the end of
the text. -/
def skipNumber (s : Bytes) : Except Fault Bytes :=
  match scanNumeral s with
  | .ok (_, s) => .ok s
  | .error _ => .error .malformed

/-- Skips what is expected and everything up to the end of the containers in `open`, of which the
innermost comes first; `true` stands for an object. `fuel` bounds the number of steps. -/
def skipFrom : Nat → Expectation → List Bool → Bytes → Except Fault Bytes
  | 0, _, _, _ => .error .truncated
  | _, .next, [], s => .ok s
  | fuel + 1, expectation, opened, s =>
    match expectation, opened, skipBlanks s with
    | _, _, [] => .error .truncated
    | .next, isObject :: outer, b :: s =>
      if b == 44 then skipFrom fuel (if isObject then .key else .value) (isObject :: outer) s
      else if b == (if isObject then 125 else 93) then skipFrom fuel .next outer s
      else .error .malformed
    | .start, isObject :: outer, b :: s =>
      if b == (if isObject then 125 else 93) then skipFrom fuel .next outer s
      else skipFrom fuel (if isObject then .key else .value) (isObject :: outer) (b :: s)
    | .key, opened, b :: s =>
      if b == 34 then do
        let s ← skipString s.length s
        let s ← expectColon s
        skipFrom fuel .value opened s
      else .error .malformed
    | _, opened, b :: s =>
      if b == 110 then do skipFrom fuel .next opened (← expectWord ['u', 'l', 'l'] s)
      else if b == 116 then do skipFrom fuel .next opened (← expectWord ['r', 'u', 'e'] s)
      else if b == 102 then do skipFrom fuel .next opened (← expectWord ['a', 'l', 's', 'e'] s)
      else if b == 45 || isDigitByte b then do
        skipFrom fuel .next opened (← skipNumber (b :: s))
      else if b == 34 then do skipFrom fuel .next opened (← skipString s.length s)
      else if b == 91 then skipFrom fuel .start (false :: opened) s
      else if b == 123 then skipFrom fuel .start (true :: opened) s
      else .error .malformed

/-- Behind a value of any shape. Every step but the one after an opening bracket takes at least one
byte. -/
def skipValue (s : Bytes) : Except Fault Bytes := skipFrom (2 * s.length + 2) .value [] s

/-! ### Whole texts -/

/-- Reads a text that has to be one value with nothing but blanks around it. -/
def readAll {α : Type} (read : Reader α) (s : Bytes) : Except Fault α := do
  let (a, s) ← read s
  if (skipBlanks s).isEmpty then .ok a else .error .malformed

/-- The value that a text spells. -/
def ofText (s : Bytes) : Except Fault Json := readAll (readValue maxDepth) s

/-! ### Values as maps

A value that was read without knowing its shape can be given one afterwards. Its fields are then
met in the order of their keys, and so are their faults. -/

/-- The vertex that a key names. -/
def vertexOfKey (key : String) : Except Fault VertexId :=
  let s := Text.encode key
  if startsNumber s then do
    let (id, s) ← readVertexId s
    if s.isEmpty then .ok id else .error .malformed
  else .error .malformed

/-- The map that fields describe. -/
def vertexMapOfFields {α : Type} (value : Json → Except Fault α) :
    List (String × Json) → Except Fault (List (VertexId × α))
  | [] => .ok []
  | (key, json) :: rest => do
    let id ← vertexOfKey key
    let a ← value json
    let entries ← vertexMapOfFields value rest
    .ok ((id, a) :: entries)

/-- An object as a map from vertices. -/
def toVertexMap {α : Type} (value : Json → Except Fault α) : Json → Except Fault (VertexMap α)
  | object fields => (vertexMapOfFields value fields).map VertexMap.ofList
  | _ => .error .mismatched

/-- A value as a number. -/
def toNumber : Json → Except Fault Number
  | number n => .ok n
  | _ => .error .mismatched

end Superstep.Json
