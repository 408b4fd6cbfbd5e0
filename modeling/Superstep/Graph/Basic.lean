import Superstep.Event
import Superstep.Graph.Compressed

/-!
# Graphs

A graph grows edge by edge and carries one value per vertex. Its vertices are `0, 1, …` up to the
largest number that was ever mentioned. Growing it costs it its finalization: `finalize` arranges
the edges, drops the repeated ones and builds the topology, and until the next growth the graph is
finalized.

The last topology stays readable while the graph is not finalized, and may then be smaller than
the graph. What a finalized graph promises is in the type: its topology is the one that its edges
give, and its edges ascend strictly.
-/

namespace Superstep

/-- A directed graph with a value of type `D` at every vertex. -/
structure Graph (D : Type) where
  /-- The edges, in order of arrival until the graph is finalized, arranged from then on. -/
  edges : Array Edge
  /-- The adjacency that was built last. -/
  topology : Topology
  /-- The value of each vertex. -/
  data : Array D
  finalized : Bool
  edges_below : EdgesBelow data.size edges.toList
  size_le : data.size ≤ UInt32.size
  topology_eq : finalized = true → topology = Topology.ofEdges data.size edges.toList edges_below
  edges_ascending : finalized = true → edges.toList.Pairwise fun a b => a.key < b.key

namespace Graph

variable {D : Type}

/-- The graph without vertices, which is not finalized. -/
def empty : Graph D where
  edges := #[]
  topology := Topology.empty
  data := #[]
  finalized := false
  edges_below := by simp [EdgesBelow]
  size_le := by simp
  topology_eq := by simp
  edges_ascending := by simp

instance : Inhabited (Graph D) := ⟨empty⟩

def numVertices (g : Graph D) : Nat := g.data.size

/-- The number of edges, repeated ones included while the graph is not finalized. -/
def numEdges (g : Graph D) : Nat :=
  if g.finalized then g.topology.numEdges else g.edges.size

theorem topology_size {g : Graph D} (h : g.finalized = true) : g.data.size = g.topology.size := by
  rw [g.topology_eq h, Topology.size_ofEdges]

/-! ### Growing -/

/-- Makes sure that `v` is a vertex. New vertices start with the default value. -/
def addVertex [Inhabited D] (g : Graph D) (v : VertexId) : Graph D :=
  if v.toNat < g.data.size then g
  else
    { edges := g.edges
      topology := g.topology
      data := g.data ++ Array.replicate (v.toNat + 1 - g.data.size) default
      finalized := false
      edges_below := fun e he => by
        have := g.edges_below e he
        simp only [Array.size_append, Array.size_replicate]
        omega
      size_le := by
        have := g.size_le
        have := v.toNat_lt_size
        simp only [Array.size_append, Array.size_replicate]
        omega
      topology_eq := by simp
      edges_ascending := by simp }

theorem lt_size_addVertex [Inhabited D] (g : Graph D) (v : VertexId) :
    v.toNat < (g.addVertex v).data.size := by
  unfold addVertex
  split
  · assumption
  · simp only [Array.size_append, Array.size_replicate]
    omega

/-- Adds an edge between vertices of the graph. -/
def pushEdge (g : Graph D) (e : Edge)
    (h : e.source.toNat < g.data.size ∧ e.target.toNat < g.data.size) : Graph D where
  edges := g.edges.push e
  topology := g.topology
  data := g.data
  finalized := false
  edges_below := fun d hd => by
    rw [Array.toList_push, List.mem_append, List.mem_singleton] at hd
    rcases hd with hd | rfl
    · exact g.edges_below d hd
    · exact h
  size_le := g.size_le
  topology_eq := by simp
  edges_ascending := by simp

/-- The end of an edge with the larger number. -/
def largerEnd (e : Edge) : VertexId := if e.source < e.target then e.target else e.source

theorem le_largerEnd (e : Edge) :
    e.source.toNat ≤ (largerEnd e).toNat ∧ e.target.toNat ≤ (largerEnd e).toNat := by
  unfold largerEnd
  split <;> rename_i h <;> rw [UInt32.lt_iff_toNat_lt] at h <;> omega

/-- Adds an edge, and its ends where they are missing. -/
def addEdge [Inhabited D] (g : Graph D) (e : Edge) : Graph D :=
  (g.addVertex (largerEnd e)).pushEdge e <| by
    have := lt_size_addVertex g (largerEnd e)
    have := le_largerEnd e
    omega

/-- Adds edges in the order of the list. -/
def addEdges [Inhabited D] (g : Graph D) (edges : List Edge) : Graph D := edges.foldl addEdge g

/-! ### Finalizing -/

/-- The edges in order, one of each. -/
def arrangedEdges (g : Graph D) : List Edge := Edge.arrange g.edges.toList

/-- How many edges repeat another one. -/
def numRepeated (g : Graph D) : Nat := g.edges.size - g.arrangedEdges.length

theorem arrangedEdges_below (g : Graph D) : EdgesBelow g.data.size g.arrangedEdges :=
  fun e he => g.edges_below e (Edge.mem_arrange.1 he)

/-- Drops repeated edges and builds the adjacency. -/
def finalize (g : Graph D) : Graph D where
  edges := g.arrangedEdges.toArray
  topology := Topology.compressed g.data.size g.arrangedEdges g.arrangedEdges_below
  data := g.data
  finalized := true
  edges_below := g.arrangedEdges_below
  size_le := g.size_le
  topology_eq := fun _ => Topology.compressed_eq_ofEdges _
  edges_ascending := fun _ => Edge.ascending_arrange _

/-- What finalizing has to tell. -/
def finalizeEvents (g : Graph D) : List Event :=
  if 0 < g.numRepeated then [.droppedDuplicates g.numRepeated] else []

/-! ### Values -/

/-- The same graph with other values. -/
def withData (g : Graph D) (data : Array D) (h : data.size = g.data.size) : Graph D where
  edges := g.edges
  topology := g.topology
  data := data
  finalized := g.finalized
  edges_below := h ▸ g.edges_below
  size_le := h ▸ g.size_le
  topology_eq := fun hf => (g.topology_eq hf).trans (Topology.ofEdges_congr h.symm rfl _)
  edges_ascending := g.edges_ascending

/-- The value of a vertex, or `none` beyond the graph. -/
def value? (g : Graph D) (v : VertexId) : Option D := g.data[v.toNat]?

/-- Gives a vertex another value, or `none` beyond the graph. -/
def setValue? (g : Graph D) (v : VertexId) (value : D) : Option (Graph D) :=
  if v.toNat < g.data.size then
    some (g.withData (g.data.modify v.toNat fun _ => value) (Array.size_modify ..))
  else none

/-- The graph with the given values and edges, not finalized. -/
def ofParts (data : Array D) (edges : List Edge) (below : EdgesBelow data.size edges)
    (size_le : data.size ≤ UInt32.size) : Graph D where
  edges := edges.toArray
  topology := Topology.empty
  data := data
  finalized := false
  edges_below := below
  size_le := size_le
  topology_eq := by simp
  edges_ascending := by simp

end Graph

end Superstep
