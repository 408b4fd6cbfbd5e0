import Superstep.Graph.Basic

/-!
# Vertices as a program sees them

While a round runs, the adjacency is fixed and so are the values that other vertices may read. A
`Network` is that state. A `Vertex` is one of its vertices together with all of it: from a vertex
a program reaches its links, their far ends, and whatever lies behind those.

A `Site` is what remains of a vertex while its own value is being replaced: its number and its
degrees, and no way to any other vertex.
-/

namespace Superstep

/-- A topology with a value for each of its vertices. -/
structure Network (D : Type) where
  topology : Topology
  data : Array D
  covers : data.size = topology.size

/-- The adjacency and the values of a finalized graph. -/
def Graph.network {D : Type} (g : Graph D) (h : g.finalized = true) : Network D :=
  ⟨g.topology, g.data, topology_size h⟩

/-- A vertex of a network. -/
structure Vertex (D : Type) where
  network : Network D
  id : VertexId
  inRange : id.toNat < network.topology.size

/-- The number and the degrees of a vertex. -/
structure Site where
  id : VertexId
  outDegree : Nat
  inDegree : Nat

/-- An edge between two vertices of a network. -/
structure Link (D : Type) where
  source : Vertex D
  target : Vertex D

namespace Vertex

variable {D : Type}

/-- The value at the vertex. -/
def value (v : Vertex D) : D :=
  have : v.id.toNat < v.network.data.size := v.network.covers ▸ v.inRange
  v.network.data[v.id.toNat]

def targets (v : Vertex D) : List VertexId := v.network.topology.targets v.id v.inRange

def sources (v : Vertex D) : List VertexId := v.network.topology.sources v.id v.inRange

def outDegree (v : Vertex D) : Nat := v.targets.length

def inDegree (v : Vertex D) : Nat := v.sources.length

def site (v : Vertex D) : Site := ⟨v.id, v.outDegree, v.inDegree⟩

/-- The edges that leave the vertex, by ascending target. -/
def outLinks (v : Vertex D) : List (Link D) :=
  v.targets.attach.map fun ⟨w, hw⟩ => ⟨v, ⟨v.network, w, Topology.targets_lt v.inRange w hw⟩⟩

/-- The edges that reach the vertex, by ascending source. -/
def inLinks (v : Vertex D) : List (Link D) :=
  v.sources.attach.map fun ⟨w, hw⟩ => ⟨⟨v.network, w, Topology.sources_lt v.inRange w hw⟩, v⟩

end Vertex

namespace Network

variable {D : Type}

/-- The vertices, ascending. -/
def vertices (n : Network D) : List (Vertex D) :=
  (List.range n.topology.size).attach.map fun ⟨i, hi⟩ =>
    ⟨n, UInt32.ofNat i, by
      rw [UInt32.toNat_ofNat']
      exact Nat.lt_of_le_of_lt (Nat.mod_le ..) (List.mem_range.1 hi)⟩

end Network

/-- Writes new elements over the first ones of an array, whose size stays as it is. -/
def overlay {α : Type} (old : Array α) (new : List α) : Array α :=
  let new := new.toArray
  old.mapIdx fun i a => new[i]?.getD a

@[simp] theorem size_overlay {α : Type} (old : Array α) (new : List α) :
    (overlay old new).size = old.size := by
  simp [overlay]

/-- The graph with new values for its first vertices. -/
def Graph.overwrite {D : Type} (g : Graph D) (values : List D) : Graph D :=
  g.withData (overlay g.data values) (size_overlay ..)

end Superstep
