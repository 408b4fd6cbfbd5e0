import Superstep.Fault
import Superstep.Proofs.Adjacency
import Superstep.Proofs.Lookup

/-!
# What makes a finalized graph

The edges of a finalized graph ascend strictly, so they are determined by which edges there are.
Read off the rows of the vertices, one after the other, they come out as they stand, and arranging
them again changes nothing. With the values of the vertices they make the whole graph, because the
topology is a function of them.

## Main results

* `Graph.flatMap_edgesFrom`: the edges, vertex by vertex
* `Graph.numEdges_eq`: the topology counts the edges
* `Graph.ext_finalized`: edges and values make a finalized graph
-/

namespace Superstep

namespace Edge

/-- Edges in strict order. -/
def Arranged (edges : List Edge) : Prop := edges.Pairwise fun a b => a.key < b.key

/-- Two arranged lists with the same edges are the same. -/
theorem Arranged.eq {edges edges' : List Edge} (h : Arranged edges) (h' : Arranged edges')
    (hm : ∀ e, e ∈ edges ↔ e ∈ edges') : edges = edges' :=
  eq_of_pairwise_asymm (fun _ _ => Nat.lt_asymm) h h' hm

theorem Arranged.arrange_eq {edges : List Edge} (h : Arranged edges) : arrange edges = edges :=
  Arranged.eq (ascending_arrange edges) h fun _ => mem_arrange

theorem key_lt_of_source_lt {a b : Edge} (h : a.source < b.source) : a.key < b.key := by
  have ha := a.target.toNat_lt
  have hsource := UInt32.lt_iff_toNat_lt.1 h
  simp only [key, UInt32.size]
  omega

theorem key_lt_of_target_lt {a b : Edge} (hs : a.source = b.source) (h : a.target < b.target) :
    a.key < b.key := by
  have htarget := UInt32.lt_iff_toNat_lt.1 h
  simp only [key, hs]
  omega

/-- Arranged edges are not more than there are keys. -/
theorem Arranged.length_le {edges : List Edge} (h : Arranged edges) {bound : Nat}
    (hb : ∀ e ∈ edges, e.key < bound) : edges.length ≤ bound := by
  have hnodup : (edges.map key).Nodup := List.pairwise_map.2 (h.imp Nat.ne_of_lt)
  have hle : (edges.map key).length ≤ bound := by
    refine length_le_of_nodup hnodup fun k hk => ?_
    obtain ⟨e, he, rfl⟩ := List.mem_map.1 hk
    exact hb e he
  rwa [List.length_map] at hle

end Edge

namespace Graph

variable {D : Type} {g : Graph D}

/-- The edges that leave a vertex. -/
def edgesFrom (g : Graph D) (v : VertexId) : List Edge := (g.targetsOf v).map (Edge.mk v)

theorem mem_edgesFrom {v : VertexId} {e : Edge} :
    e ∈ g.edgesFrom v ↔ e ∈ g.edges.toList ∧ e.source = v := by
  rw [edgesFrom, List.mem_map]
  constructor
  · rintro ⟨w, hw, rfl⟩
    exact ⟨mem_targetsOf.1 hw, rfl⟩
  · rintro ⟨he, rfl⟩
    exact ⟨e.target, mem_targetsOf.2 he, rfl⟩

/-- **The edges of a finalized graph, vertex by vertex.** -/
theorem flatMap_edgesFrom (hf : g.finalized = true) :
    g.ids.flatMap g.edgesFrom = g.edges.toList := by
  refine Edge.Arranged.eq ?_ (g.edges_ascending hf) fun e => ?_
  · refine List.pairwise_flatMap.2 ⟨fun v _ => ?_, g.pairwise_ids.imp ?_⟩
    · refine List.pairwise_map.2 ((pairwise_targetsOf hf v).imp ?_)
      intro a b hab
      exact Edge.key_lt_of_target_lt rfl hab
    · intro v w hvw a ha b hb
      refine Edge.key_lt_of_source_lt ?_
      rwa [(mem_edgesFrom.1 ha).2, (mem_edgesFrom.1 hb).2]
  · rw [List.mem_flatMap]
    constructor
    · rintro ⟨v, -, he⟩
      exact (mem_edgesFrom.1 he).1
    · intro he
      exact ⟨e.source, mem_ids.2 (g.edges_below e he).1, mem_edgesFrom.2 ⟨he, rfl⟩⟩

theorem toNat_ofNat {i : Nat} (h : i < g.numVertices) : (UInt32.ofNat i).toNat = i :=
  UInt32.toNat_ofNat_of_lt' (Nat.lt_of_lt_of_le h g.size_le)

theorem outRows_eq (hf : g.finalized = true) :
    g.topology.outRows.toList = g.ids.map g.targetsOf := by
  have hrows : g.topology.outRows = rowsOf g.data.size g.edges.toList := by
    rw [g.topology_eq hf]
    rfl
  refine List.ext_getElem (by simp [hrows, ids, numVertices]) fun i hi hi' => ?_
  have hlt : i < g.numVertices := by simpa [ids] using hi'
  simp only [hrows, Array.getElem_toList, getElem_rowsOf, ids, List.getElem_map,
    List.getElem_range, targetsOf]
  congr 1
  refine List.filter_congr fun e _ => ?_
  rw [← beq_toNat, toNat_ofNat hlt]

/-- **The topology of a finalized graph counts its edges.** -/
theorem numEdges_eq (hf : g.finalized = true) : g.numEdges = g.edges.toList.length := by
  have hsum : g.topology.numEdges = (g.topology.outRows.toList.map List.length).sum := by
    rw [Topology.numEdges, ← Array.foldr_toList, Array.toList_map]
    rfl
  rw [numEdges, if_pos hf, hsum, outRows_eq hf, ← flatMap_edgesFrom hf, List.length_flatMap,
    List.map_map]
  congr 1
  refine List.map_congr_left fun v _ => ?_
  rw [Function.comp_apply, edgesFrom, List.length_map]

/-- With fewer vertices than there are numbers, the edges can be counted. -/
theorem numEdges_lt (hf : g.finalized = true) (h : g.numVertices < UInt32.size) :
    g.numEdges < countLimit := by
  have hle : g.edges.toList.length ≤ (UInt32.size - 1) * UInt32.size := by
    refine Edge.Arranged.length_le (g.edges_ascending hf) fun e he => ?_
    have hsource := (g.edges_below e he).1
    have htarget := e.target.toNat_lt
    have hsize : g.data.size < UInt32.size := h
    simp only [Edge.key, UInt32.size] at hsize ⊢
    omega
  rw [numEdges_eq hf]
  exact Nat.lt_of_le_of_lt hle (by decide)

/-- **Edges and values make a finalized graph.** -/
theorem ext_finalized {g' : Graph D} (hf : g.finalized = true) (hf' : g'.finalized = true)
    (hdata : g.data = g'.data) (hedges : g.edges = g'.edges) : g = g' := by
  have htopology : g.topology = g'.topology := by
    rw [g.topology_eq hf, g'.topology_eq hf']
    exact Topology.ofEdges_congr (by rw [hdata]) (by rw [hedges]) g.edges_below
  obtain ⟨edges, topology, data, finalized, _, _, _, _⟩ := g
  obtain ⟨edges', topology', data', finalized', _, _, _, _⟩ := g'
  obtain rfl : edges = edges' := hedges
  obtain rfl : topology = topology' := htopology
  obtain rfl : data = data' := hdata
  obtain rfl : finalized = finalized' := hf.trans hf'.symm
  rfl

end Graph

end Superstep
