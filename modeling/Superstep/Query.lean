import Superstep.Binary64.Decimal
import Superstep.Files
import Superstep.Graph.EdgeList
import Superstep.PageRank.Compute
import Superstep.PageRank.Ranking
import Superstep.PageRank.Sources
import Superstep.Snapshot.Basic

/-!
# Queries

A query names a graph file, how to compute, and what to write. Running it loads the graph, reads
the sources if a file names them, computes, and writes an index and the ranked results where they
are asked for. The first thing that goes wrong ends it; what was written before stays.
-/

namespace Superstep

/-- The layout of a graph file. -/
inductive GraphFormat where
  | edgeList
  | snapshot
deriving DecidableEq

namespace GraphFormat

/-- The layout that a word names. -/
def ofText? (text : String) : Option GraphFormat :=
  if text == "snap" || text == "tsv" then some edgeList
  else if text == "snapshot" || text == "bin" then some snapshot
  else none

/-- What is said of a word that names no layout. -/
def unknownMessage (text : String) : String := s!"unknown graph format: {text}"

def name : GraphFormat → String
  | edgeList => "snap"
  | snapshot => "snapshot"

open PageRank in
/-- The finalized graph that a file holds, and the events of loading it. A snapshot is read as an
index. -/
def load (format : GraphFormat) (path : String) (content : List UInt8) :
    Except Error (Graph (VertexState Binary64) × List Event) :=
  match format with
  | edgeList => (EdgeList.load path content).map fun g => (g.finalize, g.finalizeEvents)
  | snapshot => Snapshot.load path .index content

end GraphFormat

/-- What a query asks for. -/
structure QueryConfig where
  /-- The file of the graph. -/
  graph : String
  format : GraphFormat := .edgeList
  niters : Nat := 10
  threshold : Binary64 := Binary64.ofDecimal false 1 (-4)
  resetProb : Binary64 := PageRank.defaultResetProb
  /-- Where the index goes. -/
  binPrefix : Option String := none
  /-- Where the ranked results go. -/
  savePrefix : Option String := none
  /-- How many entries of a vertex are ranked. -/
  topk : Nat := 100
  sourcesFile : Option String := none
  /-- How many sources are read at most. -/
  numSources : Nat := 1000
  noIndex : Bool := false
  workers : Nat := 1

/-- How a query was answered. -/
structure QueryReport where
  numVertices : Nat
  numEdges : Nat
  /-- The number of sources, where a file names them. -/
  numSources : Option Nat
  computed : PageRank.ComputeSummary

namespace Query

open PageRank

/-- The numbers that the computation needs. -/
def settings (config : QueryConfig) : ComputeSettings Binary64 where
  niters := config.niters
  threshold := config.threshold
  resetProb := config.resetProb
  noIndex := config.noIndex
  workers := config.workers

/-- How many of the sources are not vertices of the graph. -/
def numOutside (g : Graph (VertexState Binary64)) (sources : VertexSet) : Nat :=
  sources.toList.countP fun id => g.numVertices ≤ id.toNat

variable {m : Type → Type} [Monad m] [Files m]

/-- The content of a file. -/
def readPath (path : String) : m (Except Error (List UInt8)) := do
  return (← Files.read path).mapError (.io path)

def writePath (path : String) (content : String) : m (Except Error Unit) := do
  return (← Files.write path (Text.encode content)).mapError (.io path)

/-- The graph of a query. -/
def loadGraph (config : QueryConfig) :
    m (Except Error (Graph (VertexState Binary64) × List Event)) := do
  match ← readPath config.graph with
  | .error cause => return .error cause
  | .ok content => return config.format.load config.graph content

/-- The sources of a query on a graph, where a file names them. -/
def loadSources (config : QueryConfig) (g : Graph (VertexState Binary64)) :
    m (List Event × Except Error (Option VertexSet)) := do
  match config.sourcesFile with
  | none => return ([], .ok none)
  | some path =>
    match ← readPath path with
    | .error cause => return ([], .error cause)
    | .ok content =>
      match Sources.read path content config.numSources with
      | (events, .error cause) => return (events, .error cause)
      | (events, .ok sources) =>
        let outside := numOutside g sources
        let more := if 0 < outside then [.sourcesOutside outside] else []
        return (events ++ more, .ok (some sources))

/-- Writes the index of a graph. -/
def writeIndex (g : Graph (VertexState Binary64)) (path : String) : m (Except Error Unit) := do
  match Snapshot.save g .index with
  | .error cause => return .error cause
  | .ok text => writePath path text

/-- Writes the ranked results of a graph. The result is the number of lines. -/
def writeResults (g : Graph (VertexState Binary64)) (topk : Nat) (path : String) :
    m (Except Error Nat) := do
  let lines := resultLines g topk
  return (← writePath path (textOfLines lines)).map fun () => lines.length

/-- Writes a file where one is asked for. -/
def whereAsked (path : Option String) (write : String → m (Except Error Unit)) :
    m (Except Error Unit) :=
  match path with
  | none => return .ok ()
  | some path => write path

/-- Writes what a query asks for, the index first. -/
def writeOutputs (config : QueryConfig) (g : Graph (VertexState Binary64)) :
    m (Except Error Unit) := do
  match ← whereAsked config.binPrefix (writeIndex g) with
  | .error cause => return .error cause
  | .ok () => whereAsked config.savePrefix fun path => do
    return (← writeResults g config.topk path).map fun _ => ()

/-- Runs a query. The events come with the result, also if it is a failure. -/
def run (config : QueryConfig) : m (List Event × Except Failure QueryReport) := do
  match ← loadGraph config with
  | .error cause => return ([], .error (.error cause))
  | .ok (g, loaded) =>
    match ← loadSources config g with
    | (read, .error cause) => return (loaded ++ read, .error (.error cause))
    | (read, .ok sources) =>
      let computed := compute g (settings config) sources
      let events := loaded ++ read ++ computed.events
      match computed.result with
      | .error failure => return (events, .error failure)
      | .ok summary =>
        match ← writeOutputs config computed.graph with
        | .error cause => return (events, .error (.error cause))
        | .ok () =>
          let report := ⟨computed.graph.numVertices, computed.graph.numEdges,
            sources.map VertexMap.size, summary⟩
          return (events, .ok report)

end Query

end Superstep
