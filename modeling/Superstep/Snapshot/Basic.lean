import Superstep.Error
import Superstep.Event
import Superstep.Graph.Basic
import Superstep.Json.Reader
import Superstep.Snapshot.Detail
import Superstep.Text.Blank

/-!
# Snapshots

A snapshot is a text of lines, each a JSON value. The first is the header, with the numbers of
vertices and edges. Every other line is the record of one vertex: its number, its out-neighbours,
and what is kept of its value. Records are written by ascending vertex and read in any order; blank
lines between them are skipped.

Reading a header or a record accepts an object with its fields in any order and further fields
among them, or an array of the fields in order. What is kept of a value is first read as a value of
any shape, and only then as what it should be.

## What a reader checks

Line by line, in this order: the line is UTF-8, its JSON is a record, its vertex is within the
declared number and not yet recorded, its out-neighbours are within the declared number, and its
value can be loaded. At the end: no vertex is missing, and the records have as many out-neighbours
as the header declares edges.
-/

namespace Superstep.Snapshot

/-! ### Headers and records -/

structure Header where
  numVertices : Nat
  numEdges : Nat
deriving DecidableEq

/-- What a snapshot says of one vertex. -/
structure Record where
  id : VertexId
  out : List VertexId
  data : Json

namespace Header

def toJson (h : Header) : Json :=
  .object [("num_vertices", .ofNat h.numVertices), ("num_edges", .ofNat h.numEdges)]

/-- The fields that were read so far. -/
structure Partial where
  numVertices : Option Nat := none
  numEdges : Option Nat := none

def readCount : Json.Reader Nat := Json.readNatural countLimit

/-- Reads a field from its colon on. -/
def readField (name : String) (found : Partial) : Json.Reader Partial := fun s =>
  if name = "num_vertices" then
    if found.numVertices.isSome then .error .mismatched
    else do
      let (n, s) ← readCount (← Json.expectColon s)
      .ok ({ found with numVertices := some n }, s)
  else if name = "num_edges" then
    if found.numEdges.isSome then .error .mismatched
    else do
      let (n, s) ← readCount (← Json.expectColon s)
      .ok ({ found with numEdges := some n }, s)
  else do
    let s ← Json.skipValue (← Json.expectColon s)
    .ok (found, s)

end Header

/-- The next item of an array that has to have one. -/
def readItem {α : Type} (first : Bool) (item : Json.Reader α) : Json.Reader α := fun s => do
  match ← Json.nextItem first s with
  | none => .error .mismatched
  | some s => item s

/-- An object or an array, whichever opens. -/
def readEither {α : Type} (depth : Nat) (fromObject fromArray : Nat → Json.Reader α) :
    Json.Reader α := fun s =>
  match Json.skipBlanks s with
  | 91 :: rest => Json.opening 91 depth fromArray (91 :: rest)
  | s => Json.opening 123 depth fromObject s

/-- A header in a text of which it is all. -/
def Header.ofText (s : Json.Bytes) : Except Json.Fault Header :=
  Json.readAll (readEither Json.maxDepth fromObject fromArray) s
where
  fromObject (_ : Nat) : Json.Reader Header := fun s => do
    let (found, s) ← Json.readFieldsFrom Json.readString Header.readField (s.length + 1) true {} s
    match found with
    | ⟨some numVertices, some numEdges⟩ => .ok (⟨numVertices, numEdges⟩, ← Json.closeObject s)
    | _ => .error .mismatched
  fromArray (_ : Nat) : Json.Reader Header := fun s => do
    let (numVertices, s) ← readItem true Header.readCount s
    let (numEdges, s) ← readItem false Header.readCount s
    .ok (⟨numVertices, numEdges⟩, ← Json.closeArray s)

namespace Record

def toJson (r : Record) : Json :=
  .object [("id", .ofNat r.id.toNat), ("out", .array (r.out.map fun v => .ofNat v.toNat)),
    ("data", r.data)]

/-- The fields that were read so far. -/
structure Partial where
  id : Option VertexId := none
  out : Option (List VertexId) := none
  data : Option Json := none

def readOut (depth : Nat) : Json.Reader (List VertexId) :=
  Json.readSeq depth Json.readVertexId

/-- Reads a field from its colon on. -/
def readField (depth : Nat) (name : String) (found : Partial) : Json.Reader Partial := fun s =>
  if name = "id" then
    if found.id.isSome then .error .mismatched
    else do
      let (id, s) ← Json.readVertexId (← Json.expectColon s)
      .ok ({ found with id := some id }, s)
  else if name = "out" then
    if found.out.isSome then .error .mismatched
    else do
      let (out, s) ← readOut depth (← Json.expectColon s)
      .ok ({ found with out := some out }, s)
  else if name = "data" then
    if found.data.isSome then .error .mismatched
    else do
      let (data, s) ← Json.readValue depth (← Json.expectColon s)
      .ok ({ found with data := some data }, s)
  else do
    let s ← Json.skipValue (← Json.expectColon s)
    .ok (found, s)

/-- A record in a text of which it is all. -/
def ofText (s : Json.Bytes) : Except Json.Fault Record :=
  Json.readAll (readEither Json.maxDepth fromObject fromArray) s
where
  fromObject (depth : Nat) : Json.Reader Record := fun s => do
    let (found, s) ←
      Json.readFieldsFrom Json.readString (readField depth) (s.length + 1) true {} s
    match found with
    | ⟨some id, some out, some data⟩ => .ok (⟨id, out, data⟩, ← Json.closeObject s)
    | _ => .error .mismatched
  fromArray (depth : Nat) : Json.Reader Record := fun s => do
    let (id, s) ← readItem true Json.readVertexId s
    let (out, s) ← readItem false (readOut depth) s
    let (data, s) ← readItem false (Json.readValue depth) s
    .ok (⟨id, out, data⟩, ← Json.closeArray s)

end Record

/-! ### Writing -/

variable {D : Type} [Persist D]

/-- The out-neighbours of a vertex in the topology of a graph. -/
def outNeighbours (g : Graph D) (v : VertexId) : List VertexId :=
  if h : v.toNat < g.topology.size then g.topology.targets v h else []

/-- The record of each vertex, ascending. -/
def records (g : Graph D) (detail : Detail) : List Record :=
  g.data.toList.mapIdx fun i value =>
    ⟨UInt32.ofNat i, outNeighbours g (UInt32.ofNat i), Persist.save detail value⟩

/-- The lines of a snapshot. -/
def linesOf (g : Graph D) (detail : Detail) : List Json :=
  Header.toJson ⟨g.numVertices, g.numEdges⟩ :: (records g detail).map Record.toJson

/-- The text of a snapshot. Only a finalized graph has one. -/
def save (g : Graph D) (detail : Detail) : Except Error String :=
  if g.finalized then
    .ok (String.ofList ((linesOf g detail).flatMap fun line => line.renderChars ++ ['\n']))
  else .error .notFinalized

/-! ### Reading -/

/-- What was read of a snapshot that declares `size` vertices. -/
structure Progress (D : Type) (size : Nat) where
  /-- The value of every vertex that was recorded. -/
  values : Vector (Option D) size
  /-- The edges of the records, latest first. -/
  edges : List Edge
  below : EdgesBelow size edges

namespace Progress

/-- Nothing was read yet. -/
def empty (size : Nat) : Progress D size := ⟨Vector.replicate size none, [], by simp [EdgesBelow]⟩

/-- Adds the out-neighbours of a vertex. The first that is not a vertex is a fault. -/
def addOut {size : Nat} (p : Progress D size) (id : VertexId) (h : id.toNat < size) :
    List VertexId → Except SnapshotFault (Progress D size)
  | [] => .ok p
  | target :: rest =>
    if ht : target.toNat < size then
      let added : Progress D size :=
        { p with
          edges := ⟨id, target⟩ :: p.edges
          below := fun e he => by
            rcases List.mem_cons.1 he with rfl | he
            · exact ⟨h, ht⟩
            · exact p.below e he }
      added.addOut id h rest
    else .error (.edgeLeaves id target)

/-- Adds a record. -/
def addRecord {size : Nat} (p : Progress D size) (detail : Detail) (r : Record) :
    Except Error (Progress D size) :=
  if h : r.id.toNat < size then
    if p.values[r.id.toNat].isSome then .error (.snapshot (.vertexTwice r.id))
    else do
      let p ← (p.addOut r.id h r.out).mapError .snapshot
      let value ← (Persist.load detail r.data).mapError .json
      .ok { p with values := p.values.set r.id.toNat (some value) }
  else .error (.snapshot (.vertexBeyond r.id size))

/-- The graph of a snapshot that was read to its end, finalized, and the events of that. -/
def finish {size : Nat} [Inhabited D] (p : Progress D size) (declaredEdges : Nat)
    (size_le : size ≤ UInt32.size) : Except SnapshotFault (Graph D × List Event) :=
  match p.values.toList.findIdx? Option.isNone with
  | some index => .error (.vertexMissing index)
  | none =>
    if p.edges.length = declaredEdges then
      let data := p.values.toArray.map (·.getD default)
      let size_data : data.size = size := by simp [data]
      let g := Graph.ofParts data p.edges.reverse
        (fun e he => by rw [size_data]; exact p.below e (List.mem_reverse.1 he))
        (by rw [size_data]; exact size_le)
      .ok (g.finalize, g.finalizeEvents)
    else .error (.edgeCount declaredEdges p.edges.length)

/-- Adds the records of the remaining lines. -/
def addLines {size : Nat} (path : String) (detail : Detail) (p : Progress D size) :
    List (List UInt8) → Except Error (Progress D size)
  | [] => .ok p
  | bytes :: rest =>
    match Text.decode? bytes with
    | none => .error (.io path .invalidData)
    | some line =>
      if (Text.trim line).isEmpty then p.addLines path detail rest
      else do
        let r ← (Record.ofText bytes).mapError .json
        let p ← p.addRecord detail r
        p.addLines path detail rest

end Progress

/-- The header that a line of bytes is. -/
def readHeader (path : String) (bytes : List UInt8) : Except Error Header :=
  if (Text.decode? bytes).isSome then (Header.ofText bytes).mapError .json
  else .error (.io path .invalidData)

/-- The finalized graph of a snapshot, and the events of finalizing it. -/
def load [Inhabited D] (path : String) (detail : Detail) (content : List UInt8) :
    Except Error (Graph D × List Event) :=
  match Text.lines content with
  | [] => .error (.snapshot (.empty path))
  | first :: rest => do
    let header ← readHeader path first
    if h : header.numVertices ≤ UInt32.size then
      let p ← (Progress.empty header.numVertices).addLines path detail rest
      (p.finish header.numEdges h).mapError .snapshot
    else .error (.snapshot (.tooManyVertices header.numVertices))

end Superstep.Snapshot
