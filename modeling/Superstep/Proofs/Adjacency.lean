import Mathlib.Data.List.Basic
import Superstep.Graph.Vertex

/-!
# Adjacency of a finalized graph

The rows of a topology are filled from arranged edges. Here is what a program that walks over its
links may rely on: the links of a vertex come in ascending order of their far ends, no edge comes
twice, and the two directions are the two readings of one set of edges.

The second half is about a network as a list of vertices: it has every vertex once, and giving the
vertices new values changes neither the list nor the links.

## Main results

* `Graph.pairwise_targetsOf`, `Graph.pairwise_sourcesOf`: rows ascend strictly
* `Graph.filter_ids_eq_sourcesOf`: one set of edges behind both directions
* `Network.vertices_withValues`: new values, the same vertices
-/

namespace Superstep

/-! ### Ascending vertices -/

theorem mem_map_ofNat_range {n : Nat} {v : VertexId} :
    v ∈ (List.range n).map UInt32.ofNat ↔ v.toNat < n := by
  rw [List.mem_map]
  constructor
  · rintro ⟨i, hi, rfl⟩
    rw [UInt32.toNat_ofNat']
    exact Nat.lt_of_le_of_lt (Nat.mod_le ..) (List.mem_range.1 hi)
  · intro h
    exact ⟨v.toNat, List.mem_range.2 h, by simp⟩

theorem pairwise_map_ofNat_range {n : Nat} (h : n ≤ UInt32.size) :
    ((List.range n).map UInt32.ofNat).Pairwise (· < ·) := by
  rw [List.pairwise_map]
  refine List.pairwise_lt_range.imp_of_mem fun {i j} hi hj hij => ?_
  have hi := Nat.lt_of_lt_of_le (List.mem_range.1 hi) h
  have hj := Nat.lt_of_lt_of_le (List.mem_range.1 hj) h
  rwa [UInt32.lt_iff_toNat_lt, UInt32.toNat_ofNat_of_lt' hi, UInt32.toNat_ofNat_of_lt' hj]

theorem nodup_map_ofNat_range {n : Nat} (h : n ≤ UInt32.size) :
    ((List.range n).map UInt32.ofNat).Nodup :=
  (pairwise_map_ofNat_range h).imp UInt32.ne_of_lt

/-- Two strictly ascending lists with the same members are the same. -/
theorem eq_of_ascending {l l' : List VertexId} (h : l.Pairwise (· < ·)) (h' : l'.Pairwise (· < ·))
    (hm : ∀ v, v ∈ l ↔ v ∈ l') : l = l' := by
  have hperm : l.Perm l' :=
    (List.perm_ext_iff_of_nodup (h.imp UInt32.ne_of_lt) (h'.imp UInt32.ne_of_lt)).2 hm
  exact hperm.eq_of_pairwise (fun a b _ _ hab hba =>
    absurd (UInt32.lt_trans hab hba) (UInt32.lt_irrefl a)) h h'

/-! ### Rows -/

theorem beq_toNat (v w : VertexId) : (v.toNat == w.toNat) = (v == w) := by
  rw [Bool.eq_iff_iff, beq_iff_eq, beq_iff_eq, UInt32.toNat_inj]

theorem Edge.target_lt_of_key_lt {a b : Edge} (h : a.key < b.key) (hs : a.source = b.source) :
    a.target < b.target := by
  simp only [Edge.key, hs] at h
  exact UInt32.lt_iff_toNat_lt.2 (by omega)

theorem Edge.source_lt_of_key_lt {a b : Edge} (h : a.key < b.key) (ht : a.target = b.target) :
    a.source < b.source := by
  simp only [Edge.key, UInt32.size, ht] at h
  exact UInt32.lt_iff_toNat_lt.2 (by omega)

namespace Graph

variable {D : Type} {g : Graph D}

/-- The far ends of the edges that leave a vertex, in the order of the edges. -/
def targetsOf (g : Graph D) (v : VertexId) : List VertexId :=
  (g.edges.toList.filter fun e => e.source == v).map Edge.target

/-- The far ends of the edges that reach a vertex, in the order of the edges. -/
def sourcesOf (g : Graph D) (v : VertexId) : List VertexId :=
  (g.edges.toList.filter fun e => e.target == v).map Edge.source

/-- The number of edges that leave a vertex. -/
def outDegreeOf (g : Graph D) (v : VertexId) : Nat := (g.targetsOf v).length

theorem mem_targetsOf {v w : VertexId} : w ∈ g.targetsOf v ↔ ⟨v, w⟩ ∈ g.edges.toList := by
  rw [targetsOf, List.mem_map]
  constructor
  · rintro ⟨⟨s, t⟩, hm, rfl⟩
    obtain ⟨he, hs⟩ := List.mem_filter.1 hm
    obtain rfl : s = v := beq_iff_eq.1 hs
    exact he
  · intro he
    exact ⟨⟨v, w⟩, List.mem_filter.2 ⟨he, beq_self_eq_true v⟩, rfl⟩

theorem mem_sourcesOf {v w : VertexId} : w ∈ g.sourcesOf v ↔ ⟨w, v⟩ ∈ g.edges.toList := by
  rw [sourcesOf, List.mem_map]
  constructor
  · rintro ⟨⟨s, t⟩, hm, rfl⟩
    obtain ⟨he, ht⟩ := List.mem_filter.1 hm
    obtain rfl : t = v := beq_iff_eq.1 ht
    exact he
  · intro he
    exact ⟨⟨w, v⟩, List.mem_filter.2 ⟨he, beq_self_eq_true v⟩, rfl⟩

theorem lt_of_mem_targetsOf {v w : VertexId} (h : w ∈ g.targetsOf v) : w.toNat < g.numVertices :=
  (g.edges_below _ (mem_targetsOf.1 h)).2

theorem lt_of_mem_sourcesOf {v w : VertexId} (h : w ∈ g.sourcesOf v) : w.toNat < g.numVertices :=
  (g.edges_below _ (mem_sourcesOf.1 h)).1

/-- Out-links ascend by their target. -/
theorem pairwise_targetsOf (hf : g.finalized = true) (v : VertexId) :
    (g.targetsOf v).Pairwise (· < ·) := by
  rw [targetsOf, List.pairwise_map]
  refine ((g.edges_ascending hf).filter _).imp_of_mem fun ha hb hab => ?_
  have ha := (List.mem_filter.1 ha).2
  have hb := (List.mem_filter.1 hb).2
  exact Edge.target_lt_of_key_lt hab ((beq_iff_eq.1 ha).trans (beq_iff_eq.1 hb).symm)

/-- In-links ascend by their source. -/
theorem pairwise_sourcesOf (hf : g.finalized = true) (v : VertexId) :
    (g.sourcesOf v).Pairwise (· < ·) := by
  rw [sourcesOf, List.pairwise_map]
  refine ((g.edges_ascending hf).filter _).imp_of_mem fun ha hb hab => ?_
  have ha := (List.mem_filter.1 ha).2
  have hb := (List.mem_filter.1 hb).2
  exact Edge.source_lt_of_key_lt hab ((beq_iff_eq.1 ha).trans (beq_iff_eq.1 hb).symm)

/-- What the topology has for a vertex. -/
theorem targets_eq (hf : g.finalized = true) (v : VertexId) (h : v.toNat < g.topology.size) :
    g.topology.targets v h = g.targetsOf v := by
  have hrows : g.topology.outRows = rowsOf g.data.size g.edges.toList := by
    rw [g.topology_eq hf]
    rfl
  simp only [Topology.targets, hrows, getElem_rowsOf, beq_toNat]
  rfl

theorem sources_eq (hf : g.finalized = true) (v : VertexId) (h : v.toNat < g.topology.size) :
    g.topology.sources v h = g.sourcesOf v := by
  have hrows : g.topology.inRows = rowsOf g.data.size (g.edges.toList.map Edge.reverse) := by
    rw [g.topology_eq hf]
    rfl
  simp only [Topology.sources, hrows, getElem_rowsOf, beq_toNat, List.filter_map, List.map_map]
  rfl

/-! ### The vertices of a graph -/

/-- The vertices, ascending. -/
def ids (g : Graph D) : List VertexId := (List.range g.numVertices).map UInt32.ofNat

theorem mem_ids {v : VertexId} : v ∈ g.ids ↔ v.toNat < g.numVertices := mem_map_ofNat_range

theorem pairwise_ids (g : Graph D) : g.ids.Pairwise (· < ·) := pairwise_map_ofNat_range g.size_le

/-- The vertices from which edges reach `v`, picked from all vertices. -/
theorem filter_ids_eq_sourcesOf (hf : g.finalized = true) (v : VertexId) :
    g.ids.filter (fun u => v ∈ g.targetsOf u) = g.sourcesOf v := by
  refine eq_of_ascending (g.pairwise_ids.filter _) (pairwise_sourcesOf hf v) fun u => ?_
  rw [List.mem_filter, decide_eq_true_eq, mem_targetsOf, ← mem_sourcesOf]
  exact ⟨And.right, fun h => ⟨mem_ids.2 (lt_of_mem_sourcesOf h), h⟩⟩

end Graph

/-! ### Overlays -/

/-- As many new elements as there are old ones replace them all. -/
theorem toList_overlay {α : Type} {old : Array α} {new : List α} (h : new.length = old.size) :
    (overlay old new).toList = new := by
  refine List.ext_getElem (by simp [h]) fun i hi hi' => ?_
  simp [overlay, hi']

/-- What is seen of an array depends on what was written over it only through what is seen of
that. -/
theorem map_overlay_congr {α β : Type} {f : α → β} (old : Array α) {new new' : List α}
    (h : new'.map f = new.map f) :
    (overlay old new').toList.map f = (overlay old new).toList.map f := by
  have hmap : ∀ new : List α, (overlay old new).toList.map f =
      (overlay (old.map f) (new.map f)).toList := by
    intro new
    refine List.ext_getElem? fun i => ?_
    simp only [overlay, List.getElem?_map, Array.getElem?_toList, Array.getElem?_mapIdx,
      Array.getElem?_map, Option.map_map]
    cases old[i]? with
    | none => rfl
    | some a => simp only [Option.map_some, Function.comp_apply]; cases new[i]? <;> simp [*]
  rw [hmap, hmap, h]

theorem overlay_toList {α : Type} (old : Array α) : overlay old old.toList = old :=
  Array.toList_inj.1 (toList_overlay Array.length_toList)

/-! ### The vertices of a network -/

namespace Network

variable {D : Type} {n : Network D}

@[simp] theorem length_vertices (n : Network D) : n.vertices.length = n.topology.size := by
  simp [vertices]

theorem map_id_vertices (n : Network D) :
    n.vertices.map Vertex.id = (List.range n.topology.size).map UInt32.ofNat := by
  simp only [vertices, List.map_map]
  conv_rhs => rw [← List.attach_map_subtype_val (List.range n.topology.size)]
  rw [List.map_map]
  rfl

theorem network_eq_of_mem {v : Vertex D} (h : v ∈ n.vertices) : v.network = n := by
  obtain ⟨_, _, rfl⟩ := List.mem_map.1 h
  rfl

theorem mem_vertices (v : Vertex D) : v ∈ v.network.vertices := by
  refine List.mem_map.2 ⟨⟨v.id.toNat, List.mem_range.2 v.inRange⟩, List.mem_attach .., ?_⟩
  simp

theorem map_value_vertices (h : n.topology.size ≤ UInt32.size) :
    n.vertices.map Vertex.value = n.data.toList := by
  refine List.ext_getElem (by simp [n.covers]) fun i hi hi' => ?_
  have hlt : i < UInt32.size := Nat.lt_of_lt_of_le (by simpa using hi) h
  simp [vertices, Vertex.value, UInt32.toNat_ofNat_of_lt' hlt]

/-- The network with new values. -/
def withValues (n : Network D) (values : List D) : Network D :=
  ⟨n.topology, overlay n.data values, (size_overlay ..).trans n.covers⟩

end Network

/-- The ends of the edge that a link follows. -/
def Link.edge {D : Type} (link : Link D) : VertexId × VertexId := (link.source.id, link.target.id)

namespace Vertex

variable {D : Type}

/-- The vertex in the network with new values. -/
def withValues (v : Vertex D) (values : List D) : Vertex D :=
  ⟨v.network.withValues values, v.id, v.inRange⟩

@[simp] theorem targets_withValues (v : Vertex D) (values : List D) :
    (v.withValues values).targets = v.targets := rfl

/-- The edges of the out-links. -/
theorem map_edge_outLinks (v : Vertex D) : v.outLinks.map Link.edge = v.targets.map (v.id, ·) := by
  rw [outLinks, List.map_map]
  conv_rhs => rw [← List.attach_map_subtype_val v.targets, List.map_map]
  rfl

/-- The far ends of the out-links. -/
theorem map_target_outLinks {α : Type} (v : Vertex D) (f : VertexId → α) :
    v.outLinks.map (fun link => f link.target.id) = v.targets.map f := by
  have h := congrArg (List.map fun edge => f edge.2) v.map_edge_outLinks
  rwa [List.map_map, List.map_map] at h

theorem ext_id {v w : Vertex D} (hn : v.network = w.network) (h : v.id = w.id) : v = w := by
  obtain ⟨n, i, hi⟩ := v
  obtain ⟨n', j, hj⟩ := w
  obtain rfl : n = n' := hn
  obtain rfl : i = j := h
  rfl

end Vertex

/-- New values, the same vertices. -/
theorem Network.vertices_withValues {D : Type} (n : Network D) (values : List D) :
    (n.withValues values).vertices = n.vertices.map fun v => v.withValues values := by
  simp only [vertices, List.map_map]
  rfl

@[simp] theorem Graph.numVertices_overwrite {D : Type} (g : Graph D) (values : List D) :
    (g.overwrite values).numVertices = g.numVertices := size_overlay ..

theorem Graph.topology_size_le {D : Type} (g : Graph D) (h : g.finalized = true) :
    (g.network h).topology.size ≤ UInt32.size := by
  have := g.size_le
  rwa [Graph.topology_size h] at this

/-- Writing every value over itself changes nothing. -/
theorem Graph.overwrite_toList {D : Type} (g : Graph D) : g.overwrite g.data.toList = g := by
  obtain ⟨edges, topology, data, finalized, below, le, eq, ascending⟩ := g
  simp only [overwrite, withData, overlay_toList]

theorem Graph.map_id_vertices {D : Type} {g : Graph D} (hf : g.finalized = true) :
    (g.network hf).vertices.map Vertex.id = g.ids := by
  rw [Network.map_id_vertices, Graph.ids, Graph.numVertices, Graph.topology_size hf]
  rfl

/-- Every vertex stands at its own place. -/
theorem Network.getElem?_vertices {D : Type} (v : Vertex D) :
    v.network.vertices[v.id.toNat]? = some v := by
  have h : v.id.toNat < v.network.vertices.length := by simpa using v.inRange
  rw [List.getElem?_eq_getElem h, Option.some_inj]
  refine Vertex.ext_id (network_eq_of_mem (List.getElem_mem h)) ?_
  simp [vertices]

/-- What stands at a vertex when the values of all vertices have been replaced. -/
theorem Graph.value?_overwrite {D : Type} {g : Graph D} (hf : g.finalized = true)
    (f : Vertex D → D) {v : Vertex D} (hv : v.network = g.network hf) :
    (g.overwrite ((g.network hf).vertices.map f)).value? v.id = some (f v) := by
  have hlen : ((g.network hf).vertices.map f).length = g.data.size := by
    rw [List.length_map, Network.length_vertices]
    exact (Graph.topology_size hf).symm
  rw [value?, ← Array.getElem?_toList]
  show (overlay g.data ((g.network hf).vertices.map f)).toList[v.id.toNat]? = _
  rw [toList_overlay hlen, List.getElem?_map, ← hv, Network.getElem?_vertices, Option.map_some]

/-- The value of a vertex is what stands at it. -/
theorem Graph.value?_eq_value {D : Type} {g : Graph D} {hf : g.finalized = true} {v : Vertex D}
    (hv : v.network = g.network hf) : g.value? v.id = some v.value := by
  obtain ⟨n, id, hid⟩ := v
  obtain rfl : n = g.network hf := hv
  exact Array.getElem?_eq_getElem _

theorem Graph.targets_vertex {D : Type} {g : Graph D} {hf : g.finalized = true} {v : Vertex D}
    (hv : v.network = g.network hf) : v.targets = g.targetsOf v.id := by
  obtain ⟨n, id, hid⟩ := v
  obtain rfl : n = g.network hf := hv
  exact targets_eq hf id hid

theorem Graph.sources_vertex {D : Type} {g : Graph D} {hf : g.finalized = true} {v : Vertex D}
    (hv : v.network = g.network hf) : v.sources = g.sourcesOf v.id := by
  obtain ⟨n, id, hid⟩ := v
  obtain rfl : n = g.network hf := hv
  exact sources_eq hf id hid

/-- Whatever is within the bounds of a finalized graph is a vertex of its network. -/
theorem Graph.exists_vertex {D : Type} {g : Graph D} (hf : g.finalized = true) {id : VertexId}
    (h : id.toNat < g.numVertices) : ∃ v : Vertex D, v.network = g.network hf ∧ v.id = id :=
  ⟨⟨g.network hf, id, (Graph.topology_size hf).symm ▸ h⟩, rfl, rfl⟩

theorem Graph.value?_of_le {D : Type} {g : Graph D} {v : VertexId}
    (h : g.numVertices ≤ v.toNat) : g.value? v = none := Array.getElem?_eq_none h

theorem Graph.lt_of_value? {D : Type} {g : Graph D} {v : VertexId} {value : D}
    (h : g.value? v = some value) : v.toNat < g.numVertices := (Array.getElem?_eq_some_iff.1 h).1

/-- New values that depend on the vertex and its old value alone. -/
theorem Graph.value?_overwrite_map {D : Type} {g : Graph D} (hf : g.finalized = true)
    (f : VertexId → D → D) (id : VertexId) :
    (g.overwrite ((g.network hf).vertices.map fun v => f v.id v.value)).value? id =
      (g.value? id).map (f id) := by
  by_cases h : id.toNat < g.numVertices
  · obtain ⟨v, hv, rfl⟩ := exists_vertex hf h
    rw [value?_overwrite hf (fun v => f v.id v.value) hv, value?_eq_value hv, Option.map_some]
  · have hle := Nat.le_of_not_lt h
    rw [value?_of_le hle, value?_of_le (by rwa [numVertices_overwrite]), Option.map_none]

/-- Two vertices that point at each other. -/
def Graph.twoCycle {D : Type} (a b : D) : Graph D where
  edges := #[⟨0, 1⟩, ⟨1, 0⟩]
  topology := Topology.ofEdges 2 [⟨0, 1⟩, ⟨1, 0⟩] (by simp [EdgesBelow])
  data := #[a, b]
  finalized := true
  edges_below := by simp [EdgesBelow]
  size_le := Nat.le_of_ble_eq_true rfl
  topology_eq _ := rfl
  edges_ascending _ := by decide

end Superstep
