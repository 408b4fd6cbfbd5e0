import Superstep.Json.Weight
import Superstep.PageRank.Quantized
import Superstep.Snapshot.Detail

/-!
# What a vertex keeps

Every vertex holds three sparse vectors: its own page-rank vector, keyed by the vertices that it
reaches, and two that are keyed by sources, the flow that stopped here while still on its way and
the weight that was retained here.

A full snapshot holds all three. An index holds the page-rank vector alone, quantized; read back,
flow and residual are empty.
-/

namespace Superstep.PageRank

/-- The value of a vertex. -/
structure VertexState (W : Type) where
  /-- This vertex's page-rank vector. -/
  ppr : Sparse W := VertexMap.empty
  /-- Flow that arrived here when the decomposition stopped, by source. -/
  flow : Sparse W := VertexMap.empty
  /-- Weight that was retained here, by source. -/
  residual : Sparse W := VertexMap.empty
deriving DecidableEq

namespace VertexState

variable {W : Type}

instance : Inhabited (VertexState W) := ⟨{}⟩

/-- All three vectors as an object. -/
def toJson [JsonWeight W] (s : VertexState W) : Json :=
  .object [("flow", s.flow.toJson), ("ppr", s.ppr.toJson), ("residual", s.residual.toJson)]

/-- The vectors that were found so far while fields are read. -/
structure Partial (W : Type) where
  ppr : Option (Sparse W) := none
  flow : Option (Sparse W) := none
  residual : Option (Sparse W) := none

/-- Reads fields in order; those with other names are passed over. -/
def readFields [JsonWeight W] (found : Partial W) :
    List (String × Json) → Except Json.Fault (Partial W)
  | [] => .ok found
  | (name, value) :: rest =>
    if name = "ppr" then do
      let v ← Sparse.ofJson value
      readFields { found with ppr := some v } rest
    else if name = "flow" then do
      let v ← Sparse.ofJson value
      readFields { found with flow := some v } rest
    else if name = "residual" then do
      let v ← Sparse.ofJson value
      readFields { found with residual := some v } rest
    else readFields found rest

/-- The vectors that a value describes: an object with all three, or an array of page-rank vector,
flow and residual. -/
def ofJson [JsonWeight W] : Json → Except Json.Fault (VertexState W)
  | .object fields => do
    match ← readFields {} fields with
    | ⟨some ppr, some flow, some residual⟩ => .ok ⟨ppr, flow, residual⟩
    | _ => .error .mismatched
  | .array items => do
    match ← (items.take 3).mapM Sparse.ofJson, items.drop 3 with
    | [ppr, flow, residual], [] => .ok ⟨ppr, flow, residual⟩
    | _, _ => .error .mismatched
  | _ => .error .mismatched

/-- A count of sixteen bits. -/
def countOfJson (value : Json) : Except Json.Fault UInt16 := do
  let n ← Json.toNumber value
  let n ← n.natBelow UInt16.size
  .ok (UInt16.ofNat n)

variable [Weight W]

/-- The value that the counts of an index give. -/
def ofCounts (counts : VertexMap UInt16) : VertexState W := { ppr := dequantize counts }

instance [JsonWeight W] : Snapshot.Persist (VertexState W) where
  save
    | .index, s => Json.ofVertexMap (fun count => Json.ofNat count.toNat) (quantize s.ppr)
    | .full, s => s.toJson
  load
    | .index, value => (Json.toVertexMap countOfJson value).map ofCounts
    | .full, value => ofJson value

end VertexState

end Superstep.PageRank
