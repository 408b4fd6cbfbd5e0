import Superstep.Engine.Round
import Superstep.PageRank.Collection
import Superstep.PageRank.Decomposition

/-!
# Computing page-rank vectors

A query decomposes the flow of its sources and collects what came of it. The decomposition runs
one round more than the query asks for: the extra one takes in the flow that is still moving. The
collection is one transformation and one round.

The rounds, and the vertices with the workers that share them, have to be few enough to be counted;
nothing happens otherwise.
-/

namespace Superstep.PageRank

/-- The numbers of a query. -/
structure ComputeSettings (W : Type) where
  /-- Rounds in which flow moves. -/
  niters : Nat := 10
  threshold : W
  resetProb : W
  /-- Whether the page-rank vectors that are there already are left out of account. -/
  noIndex : Bool := false
  workers : Nat := 1

/-- The schedules of the engines that a query runs. -/
structure ComputeSchedule where
  decomposition : Nat → Schedule := fun _ => default
  transformation : List Nat := []
  collection : Nat → Schedule := fun _ => default

instance : Inhabited ComputeSchedule := ⟨{}⟩

/-- What a query amounts to. -/
structure ComputeSummary where
  decomposition : RunSummary
  collection : RunSummary
deriving DecidableEq

/-- Where a query leads. -/
structure Computed (W : Type) where
  graph : Graph (VertexState W)
  events : List Event
  result : Except Failure ComputeSummary

namespace ComputeSettings

variable {W : Type}

/-- The options of the decomposition engine. -/
def decompositionOptions (settings : ComputeSettings W) : EngineOptions :=
  EngineOptions.withMaxRounds (EngineOptions.withWorkers {} settings.workers)
    (settings.niters + 1)

/-- The options of the collection engine. -/
def collectionOptions (settings : ComputeSettings W) : EngineOptions :=
  settings.decompositionOptions.withMaxRounds 1

/-- Whether the rounds and the workers can be counted on a graph of `numVertices` vertices. -/
def fits (settings : ComputeSettings W) (numVertices : Nat) : Bool :=
  settings.niters + 1 < countLimit &&
    Tiling.fits numVertices settings.decompositionOptions.workers

end ComputeSettings

variable {W : Type} [Weight W] [JsonWeight W]

/-- Lets the flow of the sources run, from a signal to every vertex. -/
def decompose (g : Graph (VertexState W)) (settings : ComputeSettings W)
    (sources : Option VertexSet) (schedules : Nat → Schedule) :
    Outcome (Sparse W) (VertexState W) (Sparse W) Unit RunSummary :=
  let program := Decomposition.program ⟨settings.resetProb, settings.threshold, sources⟩
  let engine := Engine.ofProgram program VertexMap.empty g.numVertices
    settings.decompositionOptions
  engine.signalAll.run g schedules

/-- Sends the sources their parts and puts them in place. -/
def collect (g : Graph (VertexState W)) (settings : ComputeSettings W)
    (schedule : ComputeSchedule) :
    Outcome (Sparse W) (VertexState W) (Sparse W) Unit RunSummary :=
  let engine := Engine.ofProgram Collection.program VertexMap.empty g.numVertices
    settings.collectionOptions
  let sent := engine.transform g
    (Collection.forward ⟨settings.threshold, settings.noIndex⟩) schedule.transformation
  match sent.result with
  | .error failure => { sent with result := .error failure }
  | .ok _ =>
    let collected := sent.engine.run sent.graph schedule.collection
    { collected with events := sent.events ++ collected.events }

/-- Runs a query on a graph whose rounds and workers can be counted. -/
def computeOn (g : Graph (VertexState W)) (settings : ComputeSettings W)
    (sources : Option VertexSet) (schedule : ComputeSchedule) : Computed W :=
  let decomposed := decompose g settings sources schedule.decomposition
  match decomposed.result with
  | .error failure => ⟨decomposed.graph, decomposed.events, .error failure⟩
  | .ok decomposition =>
    let collected := collect decomposed.graph settings schedule
    ⟨collected.graph, decomposed.events ++ collected.events,
      collected.result.map fun collection => ⟨decomposition, collection⟩⟩

/-- Runs a query on a graph: decomposition, then collection. -/
def compute (g : Graph (VertexState W)) (settings : ComputeSettings W)
    (sources : Option VertexSet) (schedule : ComputeSchedule := default) : Computed W :=
  if settings.fits g.numVertices then computeOn g settings sources schedule
  else ⟨g, [], .error (.fault .overflow)⟩

end Superstep.PageRank
