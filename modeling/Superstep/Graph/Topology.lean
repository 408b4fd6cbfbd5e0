import Superstep.VertexMap

/-!
# Topology

A topology is the adjacency of a directed graph on the vertices `0, 1, …, size - 1`: a row of
targets and a row of sources for every vertex. It is built once from the edges and never changed.

## Bounds are part of the type

Every neighbour in a row is a vertex of the topology. A walk that starts at a vertex of the graph
therefore never needs to ask whether the next one exists, and no look-up below has a case for a
vertex that does not.

## The order of rows

`Edge.arrange` sorts edges by source and then by target and keeps one of each. Rows are filled in
the order of the edges, so out-rows and in-rows of arranged edges both ascend.
-/

namespace Superstep

/-- A directed edge. -/
structure Edge where
  source : VertexId
  target : VertexId
deriving DecidableEq

namespace Edge

/-- The same two vertices, the other way round. -/
def reverse (e : Edge) : Edge := ⟨e.target, e.source⟩

/-- Orders edges by their source, and those of one source by their target. -/
def key (e : Edge) : Nat := e.source.toNat * UInt32.size + e.target.toNat

theorem key_injective {a b : Edge} (h : a.key = b.key) : a = b := by
  obtain ⟨s, t⟩ := a
  obtain ⟨s', t'⟩ := b
  have := t.toNat_lt
  have := t'.toNat_lt
  simp only [key, UInt32.size] at h
  have hs : s = s' := UInt32.toNat_inj.1 (by omega)
  have ht : t = t' := UInt32.toNat_inj.1 (by omega)
  rw [hs, ht]

/-! ### Arranging edges -/

/-- Keeps an edge unless the next one kept is the same. -/
def keepNew (e : Edge) (kept : List Edge) : List Edge :=
  if kept.head? = some e then kept else e :: kept

/-- The list without an edge that follows itself. -/
def dropRepeats (edges : List Edge) : List Edge := edges.foldr keepNew []

/-- The edges in order, one of each. -/
def arrange (edges : List Edge) : List Edge :=
  dropRepeats (edges.mergeSort fun a b => a.key ≤ b.key)

theorem mem_dropRepeats {e : Edge} {edges : List Edge} : e ∈ dropRepeats edges ↔ e ∈ edges := by
  induction edges with
  | nil => rfl
  | cons a rest ih =>
    simp only [dropRepeats, List.foldr_cons, keepNew] at ih ⊢
    split
    · rename_i h
      rw [List.mem_cons]
      refine ⟨fun he => .inr (ih.1 he), fun he => he.elim (fun he => ?_) ih.2⟩
      exact he ▸ List.mem_of_mem_head? h
    · rw [List.mem_cons, List.mem_cons, ih]

theorem ascending_dropRepeats {edges : List Edge}
    (h : edges.Pairwise fun a b => a.key ≤ b.key) :
    (dropRepeats edges).Pairwise fun a b => a.key < b.key := by
  induction edges with
  | nil => exact List.Pairwise.nil
  | cons a rest ih =>
    obtain ⟨ha, hrest⟩ := List.pairwise_cons.1 h
    have ih := ih hrest
    simp only [dropRepeats, List.foldr_cons, keepNew] at ih ⊢
    split
    · exact ih
    · rename_i hne
      refine List.pairwise_cons.2 ⟨fun b hb => ?_, ih⟩
      have le : ∀ c ∈ rest.foldr keepNew [], a.key ≤ c.key :=
        fun c hc => ha c (mem_dropRepeats.1 hc)
      match hk : rest.foldr keepNew [] with
      | [] => rw [hk] at hb; cases hb
      | c :: others =>
        rw [hk] at hb hne le ih
        have hac : a.key < c.key :=
          Nat.lt_of_le_of_ne (le c List.mem_cons_self) fun he => hne (by
            rw [key_injective he, List.head?_cons])
        rcases List.mem_cons.1 hb with rfl | hb
        · exact hac
        · exact Nat.lt_trans hac ((List.pairwise_cons.1 ih).1 b hb)

theorem mem_arrange {e : Edge} {edges : List Edge} : e ∈ arrange edges ↔ e ∈ edges := by
  rw [arrange, mem_dropRepeats, List.mem_mergeSort]

theorem ascending_arrange (edges : List Edge) :
    (arrange edges).Pairwise fun a b => a.key < b.key :=
  ascending_dropRepeats <| (List.pairwise_mergeSort (by simp; omega) (by simp; omega) edges).imp
    (by simp)

end Edge

/-! ### Rows -/

/-- For each of `size` vertices, the targets of its edges in the order of the edges. -/
def rowsOf (size : Nat) (edges : List Edge) : Array (List VertexId) :=
  edges.foldr (fun e rows => rows.modify e.source.toNat (e.target :: ·)) (Array.replicate size [])

@[simp] theorem size_rowsOf (size : Nat) (edges : List Edge) : (rowsOf size edges).size = size := by
  induction edges with
  | nil => exact Array.size_replicate
  | cons e rest ih => simpa [rowsOf] using ih

theorem mem_rowsOf {size i : Nat} {edges : List Edge} {t : VertexId}
    (h : i < (rowsOf size edges).size) :
    t ∈ (rowsOf size edges)[i] ↔
      ∃ e ∈ edges, e.source.toNat = i ∧ e.target = t := by
  induction edges with
  | nil => simp [rowsOf]
  | cons e rest ih =>
    have ih := ih (by simpa using h)
    simp only [rowsOf, List.foldr_cons, Array.getElem_modify] at ih ⊢
    split
    · rename_i hi
      rw [List.mem_cons, ih]
      constructor
      · rintro (rfl | ⟨d, hd, hs⟩)
        · exact ⟨e, List.mem_cons_self, hi, rfl⟩
        · exact ⟨d, List.mem_cons_of_mem _ hd, hs⟩
      · rintro ⟨d, hd, hs, ht⟩
        rcases List.mem_cons.1 hd with rfl | hd
        · exact .inl ht.symm
        · exact .inr ⟨d, hd, hs, ht⟩
    · rename_i hi
      rw [ih]
      constructor
      · rintro ⟨d, hd, hs⟩
        exact ⟨d, List.mem_cons_of_mem _ hd, hs⟩
      · rintro ⟨d, hd, hs, ht⟩
        rcases List.mem_cons.1 hd with rfl | hd
        · exact absurd hs hi
        · exact ⟨d, hd, hs, ht⟩

/-- A row holds the targets of the edges that start at its vertex, in the order of the edges. -/
theorem getElem_rowsOf {size i : Nat} (edges : List Edge) (h : i < (rowsOf size edges).size) :
    (rowsOf size edges)[i] =
      (edges.filter fun e => e.source.toNat == i).map Edge.target := by
  induction edges with
  | nil => simp [rowsOf]
  | cons e rest ih =>
    have ih := ih (by simpa using h)
    simp only [rowsOf, List.foldr_cons, Array.getElem_modify] at ih ⊢
    by_cases hi : e.source.toNat = i
    · simp [hi, ih]
    · simp [hi, ih]

/-! ### Topologies -/

/-- The adjacency of a directed graph on `0, 1, …, size - 1`. -/
structure Topology where
  /-- The targets of each vertex. -/
  outRows : Array (List VertexId)
  /-- The sources of each vertex. -/
  inRows : Array (List VertexId)
  size_inRows : inRows.size = outRows.size
  outRows_lt : ∀ (i : Nat) (h : i < outRows.size), ∀ t ∈ outRows[i], t.toNat < outRows.size
  inRows_lt : ∀ (i : Nat) (h : i < inRows.size), ∀ s ∈ inRows[i], s.toNat < outRows.size

/-- Both ends of every edge are below `size`. -/
def EdgesBelow (size : Nat) (edges : List Edge) : Prop :=
  ∀ e ∈ edges, e.source.toNat < size ∧ e.target.toNat < size

namespace Topology

/-- The topology of the given edges, which are kept in their order and as often as they occur. -/
def ofEdges (size : Nat) (edges : List Edge) (below : EdgesBelow size edges) : Topology where
  outRows := rowsOf size edges
  inRows := rowsOf size (edges.map Edge.reverse)
  size_inRows := by simp
  outRows_lt i h t ht := by
    rw [size_rowsOf]
    obtain ⟨e, he, _, rfl⟩ := (mem_rowsOf h).1 ht
    exact (below e he).2
  inRows_lt i h s hs := by
    rw [size_rowsOf]
    obtain ⟨e, he, _, rfl⟩ := (mem_rowsOf h).1 hs
    obtain ⟨d, hd, rfl⟩ := List.mem_map.1 he
    exact (below d hd).1

/-- The topology without vertices. -/
def empty : Topology := ofEdges 0 [] (by simp [EdgesBelow])

/-- The number of vertices. -/
def size (t : Topology) : Nat := t.outRows.size

/-- The number of edges. -/
def numEdges (t : Topology) : Nat := (t.outRows.map List.length).foldr (· + ·) 0

@[simp] theorem size_ofEdges {size : Nat} {edges : List Edge} (below : EdgesBelow size edges) :
    (ofEdges size edges below).size = size := size_rowsOf size edges

theorem ofEdges_congr {size size' : Nat} {edges edges' : List Edge} (hs : size = size')
    (he : edges = edges') (below : EdgesBelow size edges) :
    ofEdges size edges below = ofEdges size' edges' (hs ▸ he ▸ below) := by
  subst hs he; rfl

/-- The targets of a vertex. -/
def targets (t : Topology) (v : VertexId) (h : v.toNat < t.size) : List VertexId :=
  have : v.toNat < t.outRows.size := h
  t.outRows[v.toNat]

/-- The sources of a vertex. -/
def sources (t : Topology) (v : VertexId) (h : v.toNat < t.size) : List VertexId :=
  have : v.toNat < t.inRows.size := t.size_inRows ▸ h
  t.inRows[v.toNat]

theorem targets_lt {t : Topology} {v : VertexId} (h : v.toNat < t.size) :
    ∀ w ∈ t.targets v h, w.toNat < t.size := t.outRows_lt v.toNat h

theorem sources_lt {t : Topology} {v : VertexId} (h : v.toNat < t.size) :
    ∀ w ∈ t.sources v h, w.toNat < t.size := t.inRows_lt v.toNat (t.size_inRows ▸ h)

/-- Out-degree and in-degree of a vertex, or `none` beyond the topology. -/
def degrees? (t : Topology) (v : VertexId) : Option (Nat × Nat) :=
  if h : v.toNat < t.size then some ((t.targets v h).length, (t.sources v h).length) else none

end Topology

end Superstep
