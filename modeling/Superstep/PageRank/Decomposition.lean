import Superstep.Engine.Program
import Superstep.PageRank.VertexState

/-!
# Decomposing flow

Every seeded vertex starts a unit of flow. In each round a vertex retains the share `resetProb` of
what reached it, keyed by source, and passes the rest on, split evenly over its out-edges. What
would pass on a weight at or below the threshold is dropped instead. A vertex without out-edges
retains its share and has nowhere to send the rest.

The state of the program is the flow at the vertex: what arrived, until `apply`, and then what goes
out over every edge. Round zero ignores the payload and seeds; the last round moves the arriving
flow into the value of the vertex, so nothing is left pending behind it.
-/

namespace Superstep.PageRank

/-- The parameters of a decomposition. -/
structure FlowSettings (W : Type) where
  /-- The share that a vertex retains of what reaches it. -/
  resetProb : W
  /-- Flow is passed on only above this weight. -/
  threshold : W
  /-- The vertices that start a unit of flow; without a set, all of them. -/
  sources : Option VertexSet := none

variable {W : Type} [Weight W]

/-- The probability that a walk restarts at its source, unless a query says otherwise: `0.15`. -/
def defaultResetProb : W := ((15 : Nat) : W) / ((100 : Nat) : W)

namespace FlowSettings

/-- The settings with a threshold and defaults otherwise. -/
def ofThreshold (threshold : W) : FlowSettings W :=
  { resetProb := defaultResetProb, threshold }

/-- Whether a vertex starts a unit of flow. -/
def isSeeded (settings : FlowSettings W) (id : VertexId) : Bool :=
  match settings.sources with
  | some sources => sources.contains id
  | none => true

end FlowSettings

namespace Decomposition

/-- The flow at a vertex when a round starts. -/
def arriving (settings : FlowSettings W) (c : Context) (id : VertexId) (payload : Sparse W) :
    Sparse W :=
  if c.round = 0 then
    if settings.isSeeded id then VertexMap.singleton id 1 else VertexMap.empty
  else payload

/-- The share of the flow at a vertex that each of its out-edges carries on. -/
def passedShare (settings : FlowSettings W) (outDegree : Nat) : W :=
  let spread : W := match outDegree with
    | 0 => 1
    | n => 1 / (n : W)
  (1 - settings.resetProb) * spread

/-- What a vertex retains of the flow at it. -/
def retained (settings : FlowSettings W) (flow : Sparse W) : Sparse W :=
  VertexMap.filterMap (fun entry => some (settings.resetProb * entry.2)) flow

/-- What each out-edge carries on, without what is too little. -/
def passed (settings : FlowSettings W) (outDegree : Nat) (flow : Sparse W) : Sparse W :=
  let share := passedShare settings outDegree
  VertexMap.filterMap
    (fun entry =>
      let weight := share * entry.2
      if settings.threshold < weight then some weight else none)
    flow

/-- The flow that goes out and the value of the vertex, given the flow at it. -/
def settle (settings : FlowSettings W) (c : Context) (site : Site) (flow : Sparse W)
    (value : VertexState W) : Sparse W × VertexState W :=
  if c.isLastRound then
    (VertexMap.empty, { value with flow := value.flow.merge flow })
  else
    (passed settings site.outDegree flow,
      { value with residual := value.residual.merge (retained settings flow) })

/-- The program that decomposes flow. Nothing is gathered. -/
def program [JsonWeight W] (settings : FlowSettings W) :
    VertexProgram (Sparse W) (VertexState W) (Sparse W) Unit where
  init c v payload _ := arriving settings c v.id payload
  gatherLinks _ _ _ := .none
  gather _ _ _ _ := ()
  apply c site _ flow value := settle settings c site flow value
  scatterLinks _ _ flow := if flow.isEmpty then .none else .outward
  scatter _ _ link flow := [⟨link.target.id, flow⟩]
  save flow := .ok (Text.encode flow.toJson.render)
  load bytes _ := (Sparse.ofText bytes).mapError .json

end Decomposition

end Superstep.PageRank
