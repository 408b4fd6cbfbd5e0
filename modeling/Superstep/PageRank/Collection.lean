import Superstep.Engine.Worker
import Superstep.PageRank.VertexState

/-!
# Collecting results

After a decomposition, what a source should know lies scattered over the graph: flow that stopped
at some vertex is worth that much of the page-rank vector there, and what a vertex retained for a
source is an entry of that source's vector. `forward` sends all of it home, and one round of
`Collection.program` puts what arrived in place of the old vectors.

Both parts of one source leave a vertex as a single signal. A part below the threshold stays
behind, but a residual travels along with flow that does not. A query that has no index to rely on
forwards residuals only.
-/

namespace Superstep.PageRank

/-- What is forwarded. -/
structure CollectSettings (W : Type) where
  /-- A weight below it is not forwarded on its own account. -/
  threshold : W
  /-- Whether flow is left out. -/
  noIndex : Bool

namespace Collection

variable {W : Type} [Weight W]

/-- A signal home, and the residual that the vertex still has when it is sent. -/
abbrev Parcel (W : Type) := Signal (Sparse W) × Sparse W

/-- What vertex `id` owes a source for flow of the given weight and for the residual it has. -/
def worth (id : VertexId) (ppr : Sparse W) (weight : W) (retained : Option W) : Sparse W :=
  match retained with
  | some retained => (ppr.scaled weight).add id retained
  | none => ppr.scaled weight

/-- Sends home flow, source by source, and with it the residual of that source. The second
component is the residual that is left. -/
def forwardFlow (settings : CollectSettings W) (id : VertexId) (ppr : Sparse W) :
    List (VertexId × W) → Sparse W → List (Parcel W) × Sparse W
  | [], residual => ([], residual)
  | (source, weight) :: rest, residual =>
    if weight < settings.threshold then forwardFlow settings id ppr rest residual
    else
      let left := residual.erase source
      let payload := worth id ppr weight (residual.get? source)
      let (parcels, final) := forwardFlow settings id ppr rest left
      ((⟨source, payload⟩, left) :: parcels, final)

/-- Sends home a residual, source by source. -/
def forwardResidual (settings : CollectSettings W) (id : VertexId) (residual : Sparse W) :
    List (Parcel W) :=
  residual.entries.filterMap fun (source, weight) =>
    if weight < settings.threshold then none
    else some (⟨source, VertexMap.singleton id weight⟩, residual)

/-- Sends every source its part and clears the residual. -/
def forward (settings : CollectSettings W) : Transformation (VertexState W) (Sparse W) :=
  fun _ site value =>
    let flow := if settings.noIndex then [] else value.flow.entries
    let (parcels, left) := forwardFlow settings site.id value.ppr flow value.residual
    let parcels := parcels ++ forwardResidual settings site.id left
    (parcels.map fun (signal, residual) => ⟨signal, { value with residual }⟩,
      { value with residual := VertexMap.empty })

/-- The program that puts an arriving vector in place of a vertex's page-rank vector. An empty one
changes nothing. -/
def program : VertexProgram (Sparse W) (VertexState W) (Sparse W) Unit where
  init _ _ payload _ := payload
  gatherLinks _ _ _ := .none
  gather _ _ _ _ := ()
  apply _ _ _ ppr value :=
    if ppr.isEmpty then (ppr, value) else (VertexMap.empty, { value with ppr })
  scatterLinks _ _ _ := .none
  scatter _ _ _ _ := []
  save _ := .ok []
  load _ prototype := .ok prototype

end Collection

end Superstep.PageRank
