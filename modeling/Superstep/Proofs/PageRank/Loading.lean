import Superstep.Proofs.Growth
import Superstep.Proofs.PageRank.Decomposition
import Superstep.Proofs.Snapshot.Acceptance
import Superstep.Query

/-!
# Graphs as they are loaded

Whatever file a graph is loaded from, nothing has flowed in it yet. The vertices of an edge list
have no vectors at all, and a snapshot is read as an index, which has the page-rank vectors and no
others.

## Main results

* `GraphFormat.finalized_of_load`, `GraphFormat.isFresh_of_load`: what every loaded graph is
-/

namespace Superstep

open PageRank

namespace PageRank.VertexState

variable {W : Type} [Weight W] [JsonWeight W]

/-- What an index gives has no flow and no residual. -/
theorem empty_of_load_index {json : Json} {value : VertexState W}
    (h : Snapshot.Persist.load .index json = .ok value) :
    value.flow = VertexMap.empty ∧ value.residual = VertexMap.empty := by
  change (Json.toVertexMap countOfJson json).map ofCounts = .ok value at h
  cases hcounts : Json.toVertexMap countOfJson json with
  | error cause =>
    rw [hcounts] at h
    cases h
  | ok counts =>
    rw [hcounts] at h
    obtain rfl := Except.ok.inj h
    exact ⟨rfl, rfl⟩

end PageRank.VertexState

namespace GraphFormat

variable {format : GraphFormat} {path : String} {content : List UInt8}
  {g : Graph (VertexState Binary64)} {events : List Event}

/-- An edge list that is loaded is some edges on a new graph, finalized. -/
theorem exists_edges_of_load (h : edgeList.load path content = .ok (g, events)) :
    ∃ edges, g = (Graph.empty.addEdges edges).finalize := by
  rw [load, EdgeList.load] at h
  cases hread : EdgeList.read path content with
  | error cause =>
    rw [hread] at h
    cases h
  | ok edges =>
    rw [hread] at h
    exact ⟨edges, (Prod.mk.inj (Except.ok.inj h)).1.symm⟩

theorem finalized_of_load (h : format.load path content = .ok (g, events)) :
    g.finalized = true := by
  cases format with
  | edgeList =>
    obtain ⟨edges, rfl⟩ := exists_edges_of_load h
    rfl
  | snapshot =>
    obtain ⟨header, records, -, hloaded⟩ := Snapshot.exists_loaded path h
    exact hloaded.finalized

/-- **Nothing has flowed in a graph that was loaded.** -/
theorem isFresh_of_load (h : format.load path content = .ok (g, events)) : IsFresh g := by
  intro value hm
  cases format with
  | edgeList =>
    obtain ⟨edges, rfl⟩ := exists_edges_of_load h
    rw [Graph.data_finalize] at hm
    obtain rfl := Graph.eq_default_of_mem_addEdges (by simp [Graph.empty]) edges value hm
    exact ⟨rfl, rfl⟩
  | snapshot =>
    obtain ⟨header, records, hw, hloaded⟩ := Snapshot.exists_loaded path h
    obtain ⟨json, hjson⟩ := hloaded.exists_load_eq hw hm
    exact VertexState.empty_of_load_index hjson

/-- The edge list of a cycle of two vertices. -/
theorem load_cycle : edgeList.load "cycle" (Text.encode "0 1\n1 0\n") =
    .ok (Graph.twoCycle {} {}, []) := by
  have hread : EdgeList.read "cycle" (Text.encode "0 1\n1 0\n") = .ok [⟨0, 1⟩, ⟨1, 0⟩] := by
    decide +kernel
  have harranged : Edge.Arranged [⟨0, 1⟩, ⟨1, 0⟩] := by
    rw [Edge.Arranged]
    decide
  have hgraph : (Graph.empty.addEdges [⟨0, 1⟩, ⟨1, 0⟩]).finalize =
      Graph.twoCycle (D := VertexState Binary64) {} {} :=
    Graph.ext_finalized rfl rfl rfl (Array.toList_inj.1 harranged.arrange_eq)
  have hevents : (Graph.empty.addEdges (D := VertexState Binary64)
      [⟨0, 1⟩, ⟨1, 0⟩]).finalizeEvents = [] := by
    show (if 0 < 2 - (Edge.arrange [⟨0, 1⟩, ⟨1, 0⟩]).length then _ else _) = _
    rw [harranged.arrange_eq]
    rfl
  rw [load, EdgeList.load, hread, ← hgraph, ← hevents]
  rfl

end GraphFormat

end Superstep
