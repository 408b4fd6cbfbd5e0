import Superstep.Engine.Schedule
import Superstep.Engine.Worker
import Superstep.Graph.Tiling

/-!
# Engines

An engine holds a vertex program, its prototype state, and the state of the run: what is pending,
the slots of the program states, and how far the run has come. It does not hold the graph. Every
operation on a graph first checks that the graph is finalized and has as many vertices as the
engine has slots, and otherwise touches nothing.

A run starts with nothing pending, all slots idle, and round zero. `ofProgram` makes such an engine,
and `resize` makes an engine ready for another graph. The vertices and the workers that share them
have to be few enough to be counted together; a new engine is refused otherwise, and one that is
resized loses its slots and cannot run.
-/

namespace Superstep

/-- How an engine runs. -/
structure EngineOptions where
  /-- The number of rounds after which a run is done. -/
  maxRounds : Nat := countLimit - 1
  /-- The number of workers that share the vertices. -/
  workers : Nat := 1
  /-- Whether states are saved between apply and scatter instead of being kept. -/
  persist : Bool := false
deriving DecidableEq

namespace EngineOptions

def withMaxRounds (o : EngineOptions) (n : Nat) : EngineOptions := { o with maxRounds := n }

/-- At least one worker. -/
def withWorkers (o : EngineOptions) (n : Nat) : EngineOptions := { o with workers := max n 1 }

def withPersist (o : EngineOptions) (persist : Bool) : EngineOptions := { o with persist }

end EngineOptions

/-- Where a run stands. Within a round the phases follow one another in this order. -/
inductive Phase where
  | gather
  | apply
  | scatter
  /-- The round cap is reached, or nothing was pending. -/
  | done
deriving DecidableEq

/-- A run of a vertex program. -/
structure Engine (S D M G : Type) where
  program : VertexProgram S D M G
  prototype : S
  options : EngineOptions
  accumulator : Accumulator M
  workers : List Worker
  slots : Array (Slot S G)
  phase : Phase
  /-- The number of completed rounds. -/
  round : Nat
  /-- The number of signals sent so far, by rounds and by transformations. -/
  signals : Nat

namespace Engine

variable {S D M G : Type}

/-- The workers that share `numVertices` vertices. -/
def workersFor (numVertices workers : Nat) : List Worker :=
  (Tiling.ranges numVertices workers).mapIdx fun i range =>
    { id := i, start := range.1, stop := range.2 }

/-- Whether the slots can be shared among the workers. -/
def isTiled (e : Engine S D M G) : Bool := Tiling.fits e.slots.size e.options.workers

/-- The engine with idle slots for another number of vertices, and nothing pending. -/
def emptied (e : Engine S D M G) (numVertices : Nat) : Engine S D M G :=
  { e with
    accumulator := Accumulator.ofSize numVertices
    slots := Array.replicate numVertices .idle }

/-- The engine at the start of a run, its slots shared anew. -/
def restarted (e : Engine S D M G) : Engine S D M G :=
  { e with
    workers := workersFor e.slots.size e.options.workers
    phase := .gather
    round := 0
    signals := 0 }

/-- Makes the engine ready for a graph of another size. If its vertices cannot be shared, the slots
are new and the run is not restarted. -/
def resize (e : Engine S D M G) (numVertices : Nat) : Except Fault Unit × Engine S D M G :=
  let emptied := e.emptied numVertices
  if emptied.isTiled then (.ok (), emptied.restarted) else (.error .overflow, emptied)

/-- The engine for graphs of `numVertices` vertices, whether they can be shared or not. -/
def ofProgram (program : VertexProgram S D M G) (prototype : S) (numVertices : Nat)
    (options : EngineOptions) : Engine S D M G :=
  let blank : Engine S D M G :=
    ⟨program, prototype, options, Accumulator.ofSize 0, [], #[], .gather, 0, 0⟩
  (blank.emptied numVertices).restarted

/-- The engine for graphs of `numVertices` vertices, if they can be shared. -/
def create (program : VertexProgram S D M G) (prototype : S) (numVertices : Nat)
    (options : EngineOptions) : Except Fault (Engine S D M G) :=
  let engine := ofProgram program prototype numVertices options
  if engine.isTiled then .ok engine else .error .overflow

/-- Schedules a vertex for the next round. -/
def signal [Payload M] (e : Engine S D M G) (vertex : VertexId) (payload : M) :
    Except Fault (Engine S D M G) :=
  (e.accumulator.add vertex payload).map fun (_, accumulator) => { e with accumulator }

/-- Schedules every vertex, with an empty payload. -/
def signalAll [Payload M] [Inhabited M] (e : Engine S D M G) : Engine S D M G :=
  { e with
    accumulator := (List.range e.accumulator.size).foldl
      (fun accumulator i => accumulator.deposit (UInt32.ofNat i) default) e.accumulator }

/-- Takes the payload that is pending for a vertex, if there is one. -/
def take? (e : Engine S D M G) (vertex : VertexId) :
    Except Fault (Option M × Engine S D M G) :=
  (e.accumulator.take? vertex).map fun (payload, accumulator) => (payload, { e with accumulator })

/-- Why the engine cannot run on a graph, if it cannot. -/
def refusal (e : Engine S D M G) (g : Graph D) : Option Error :=
  if g.finalized = false then some .notFinalized
  else if g.numVertices ≠ e.accumulator.size then
    some (.vertexCountMismatch e.accumulator.size g.numVertices)
  else none

/-- What a program is told about the run. -/
def context (e : Engine S D M G) (n : Network D) : Context where
  round := e.round
  maxRounds := e.options.maxRounds
  numVertices := e.accumulator.size
  numEdges := n.topology.numEdges

/-- Cuts what belongs to the vertices into the workers' shares. -/
def share {α : Type} (e : Engine S D M G) (items : List α) : List (Worker × List α) :=
  e.workers.zip (Tiling.chunks (Tiling.chunkSize e.slots.size e.options.workers) items)

/-- The vertices of a network with their slots. -/
def occupants (e : Engine S D M G) (n : Network D) : List (Vertex D × Slot S G) :=
  n.vertices.zip e.slots.toList

end Engine

end Superstep
