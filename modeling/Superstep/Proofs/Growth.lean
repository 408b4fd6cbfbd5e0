import Mathlib.Data.List.Dedup
import Mathlib.Data.List.Induction
import Superstep.Proofs.Finalized

/-!
# What a history leaves in a graph

A graph starts without vertices and is changed by one operation after the other. The list of those
operations, its history, says everything about it: how many vertices there are, which edges, and
whether the topology may be read. `Recalls` is what a graph keeps of its history while it changes,
and from it follows what the topology of a finalized graph has in its rows.

Nothing depends on the order in which edges came or on how often they did, because arranging the
edges forgets both.

## Main results

* `Recalls.change`, `recalls_grow`: one change and a whole history
* `adjacent_of_recalls`: the rows of a finalized graph
* `grow_spec`: all of it together, with the bounds of the arrays that finalizing fills
-/

namespace Superstep

/-- An operation on a graph. -/
inductive Change where
  | addVertex (v : VertexId)
  | addEdge (e : Edge)
  | finalize

namespace Change

/-- The vertices that a change mentions. -/
def mentioned : Change → List VertexId
  | addVertex v => [v]
  | addEdge e => [e.source, e.target]
  | finalize => []

/-- The edge that a change adds. -/
def edge? : Change → Option Edge
  | addEdge e => some e
  | _ => none

/-- One more than the largest vertex that a history mentions, or zero. -/
def idSpace (changes : List Change) : Nat :=
  (changes.flatMap mentioned).foldl (fun n v => max n (v.toNat + 1)) 0

/-- A change after which the graph has to be finalized again: another edge, or a vertex that the
history has no room for. -/
def Unsettles (history : List Change) : Change → Prop
  | addVertex v => idSpace history ≤ v.toNat
  | addEdge _ => True
  | finalize => False

/-- The graph was finalized once, and nothing has unsettled it since. -/
def Settled (changes : List Change) : Prop :=
  ∃ i, changes[i]? = some finalize ∧
    ∀ j c, i < j → changes[j]? = some c → ¬ Unsettles (changes.take j) c

/-- The edges that a history adds, one of each. -/
def distinctEdges (changes : List Change) : List Edge := (changes.filterMap edge?).dedup

theorem idSpace_append_singleton (changes : List Change) (c : Change) :
    idSpace (changes ++ [c]) =
      c.mentioned.foldl (fun n v => max n (v.toNat + 1)) (idSpace changes) := by
  rw [idSpace, List.flatMap_append, List.foldl_append, List.flatMap_singleton]
  rfl

theorem mem_distinctEdges {changes : List Change} {e : Edge} :
    e ∈ distinctEdges changes ↔ addEdge e ∈ changes := by
  rw [distinctEdges, List.mem_dedup, List.mem_filterMap]
  constructor
  · rintro ⟨c, hc, he⟩
    cases c with
    | addEdge d =>
      obtain rfl : d = e := Option.some_inj.1 he
      exact hc
    | addVertex v => cases he
    | finalize => cases he
  · intro he
    exact ⟨addEdge e, he, rfl⟩

/-- What stands at a place of a history with one more change. -/
theorem getElem?_append_singleton {changes : List Change} {c d : Change} {i : Nat} :
    (changes ++ [c])[i]? = some d ↔ changes[i]? = some d ∨ i = changes.length ∧ c = d := by
  rw [List.getElem?_append]
  split
  · rename_i hlt
    exact ⟨.inl, fun h => h.elim id fun h => absurd h.1 (Nat.ne_of_lt hlt)⟩
  · rename_i hge
    rw [List.getElem?_singleton, List.getElem?_eq_none (Nat.le_of_not_lt hge)]
    split
    · have hi : i = changes.length := by omega
      simp [hi]
    · have hi : i ≠ changes.length := by omega
      simp [hi]

/-- The last change settles the graph by itself, or leaves it as settled as it was. -/
theorem settled_append_singleton (changes : List Change) (c : Change) :
    Settled (changes ++ [c]) ↔ c = finalize ∨ Settled changes ∧ ¬ Unsettles changes c := by
  have hlt : ∀ {i d}, changes[i]? = some d → i < changes.length :=
    fun h => (List.getElem?_eq_some_iff.1 h).1
  have htake : ∀ {i}, i ≤ changes.length → (changes ++ [c]).take i = changes.take i :=
    fun h => List.take_append_of_le_length h
  constructor
  · rintro ⟨i, hi, hafter⟩
    rcases getElem?_append_singleton.1 hi with hi | ⟨-, hc⟩
    · refine .inr ⟨⟨i, hi, fun j d hij hd => ?_⟩, ?_⟩
      · have hd' := hafter j d hij (getElem?_append_singleton.2 (.inl hd))
        rwa [htake (Nat.le_of_lt (hlt hd))] at hd'
      · have hc := hafter changes.length c (hlt hi) (getElem?_append_singleton.2 (.inr ⟨rfl, rfl⟩))
        rwa [htake (Nat.le_refl _), List.take_length] at hc
    · exact .inl hc
  · rintro (rfl | ⟨⟨i, hi, hafter⟩, hc⟩)
    · refine ⟨changes.length, getElem?_append_singleton.2 (.inr ⟨rfl, rfl⟩), ?_⟩
      intro j d hj hd
      rcases getElem?_append_singleton.1 hd with hd | ⟨rfl, -⟩
      · exact absurd (hlt hd) (Nat.not_lt_of_lt hj)
      · exact absurd hj (Nat.lt_irrefl _)
    · refine ⟨i, getElem?_append_singleton.2 (.inl hi), fun j d hij hd => ?_⟩
      rcases getElem?_append_singleton.1 hd with hd | ⟨rfl, rfl⟩
      · rw [htake (Nat.le_of_lt (hlt hd))]
        exact hafter j d hij hd
      · rwa [htake (Nat.le_refl _), List.take_length]

end Change

namespace Graph

open Change (idSpace distinctEdges Settled)

variable {D : Type}

/-! ### Finalizing -/

@[simp] theorem numVertices_finalize (g : Graph D) : g.finalize.numVertices = g.numVertices := rfl

@[simp] theorem finalized_finalize (g : Graph D) : g.finalize.finalized = true := rfl

@[simp] theorem data_finalize (g : Graph D) : g.finalize.data = g.data := rfl

theorem mem_edges_finalize {g : Graph D} {e : Edge} :
    e ∈ g.finalize.edges.toList ↔ e ∈ g.edges.toList := Edge.mem_arrange

/-- A finalized graph has nothing to arrange. -/
theorem finalize_of_finalized {g : Graph D} (hf : g.finalized = true) : g.finalize = g := by
  refine ext_finalized rfl hf rfl (Array.toList_inj.1 ?_)
  exact Edge.Arranged.arrange_eq (g.edges_ascending hf)

/-- **No access lies outside its array** while a graph is finalized, and what is read back are the
rows of the topology. -/
theorem rows?_finalize (g : Graph D) :
    rows? g.numVertices g.arrangedEdges = some g.finalize.topology.outRows ∧
      rows? g.numVertices (g.arrangedEdges.map Edge.reverse) =
        some g.finalize.topology.inRows := by
  have htopology : g.finalize.topology = Topology.ofEdges g.data.size g.arrangedEdges
      g.arrangedEdges_below := Topology.compressed_eq_ofEdges _
  constructor
  · rw [htopology]
    exact rows?_eq_some g.arrangedEdges_below.source_lt
  · rw [htopology]
    exact rows?_eq_some g.arrangedEdges_below.reverse_source_lt

/-- The topology of a finalized graph is a function of how many vertices there are and of which
edges. -/
theorem topology_eq_of_mem_iff {g g' : Graph D} (hf : g.finalized = true)
    (hf' : g'.finalized = true) (hn : g.numVertices = g'.numVertices)
    (he : ∀ e, e ∈ g.edges.toList ↔ e ∈ g'.edges.toList) : g.topology = g'.topology := by
  have hedges : g.edges.toList = g'.edges.toList :=
    Edge.Arranged.eq (g.edges_ascending hf) (g'.edges_ascending hf') he
  rw [g.topology_eq hf, g'.topology_eq hf']
  exact Topology.ofEdges_congr hn hedges _

/-! ### What a graph keeps of its history -/

/-- What a graph keeps of its history. -/
structure Recalls (changes : List Change) (g : Graph D) : Prop where
  numVertices_eq : g.numVertices = idSpace changes
  mem_edges : ∀ e, e ∈ g.edges.toList ↔ .addEdge e ∈ changes
  finalized_iff : g.finalized = true ↔ Settled changes

theorem recalls_empty : Recalls [] (empty : Graph D) where
  numVertices_eq := rfl
  mem_edges := by simp [empty]
  finalized_iff := by simp [empty, Settled]

/-- The rows of a graph are those that its history asks for. -/
structure Adjacent (changes : List Change) (g : Graph D) : Prop where
  size_outRows : g.topology.outRows.size = idSpace changes
  size_inRows : g.topology.inRows.size = idSpace changes
  targets_ascend : ∀ v h, (g.topology.targets v h).Pairwise (· < ·)
  mem_targets : ∀ v h t, t ∈ g.topology.targets v h ↔ .addEdge ⟨v, t⟩ ∈ changes
  sources_ascend : ∀ v h, (g.topology.sources v h).Pairwise (· < ·)
  mem_sources : ∀ v h s, s ∈ g.topology.sources v h ↔ .addEdge ⟨s, v⟩ ∈ changes
  numEdges_eq : g.numEdges = (distinctEdges changes).length

/-- **The rows of a finalized graph.** -/
theorem adjacent_of_recalls {changes : List Change} {g : Graph D} (h : Recalls changes g)
    (hf : g.finalized = true) : Adjacent changes g := by
  have hsize : g.topology.outRows.size = idSpace changes :=
    (topology_size hf).symm.trans h.numVertices_eq
  constructor
  · exact hsize
  · exact g.topology.size_inRows.trans hsize
  · intro v hv
    rw [targets_eq hf]
    exact pairwise_targetsOf hf v
  · intro v hv t
    rw [targets_eq hf, mem_targetsOf, h.mem_edges]
  · intro v hv
    rw [sources_eq hf]
    exact pairwise_sourcesOf hf v
  · intro v hv s
    rw [sources_eq hf, mem_sourcesOf, h.mem_edges]
  · have hnodup : g.edges.toList.Nodup := (g.edges_ascending hf).imp fun hlt heq =>
      Nat.ne_of_lt hlt (congrArg Edge.key heq)
    have hperm : g.edges.toList.Perm (distinctEdges changes) :=
      (List.perm_ext_iff_of_nodup hnodup (List.nodup_dedup _)).2 fun e =>
        (h.mem_edges e).trans Change.mem_distinctEdges.symm
    rw [numEdges_eq hf, hperm.length_eq]

section Growing

variable [Inhabited D]

theorem numVertices_addVertex (g : Graph D) (v : VertexId) :
    (g.addVertex v).numVertices = max g.numVertices (v.toNat + 1) := by
  unfold addVertex numVertices
  split
  · omega
  · simp only [Array.size_append, Array.size_replicate]
    omega

theorem edges_addVertex (g : Graph D) (v : VertexId) : (g.addVertex v).edges = g.edges := by
  unfold addVertex
  split <;> rfl

theorem finalized_addVertex (g : Graph D) (v : VertexId) :
    (g.addVertex v).finalized = true ↔ g.finalized = true ∧ v.toNat < g.numVertices := by
  unfold addVertex numVertices
  split <;> simp_all

theorem toNat_largerEnd (e : Edge) :
    (largerEnd e).toNat = max e.source.toNat e.target.toNat := by
  unfold largerEnd
  split <;> rename_i h <;> rw [UInt32.lt_iff_toNat_lt] at h <;> omega

theorem numVertices_addEdge (g : Graph D) (e : Edge) :
    (g.addEdge e).numVertices =
      max (max g.numVertices (e.source.toNat + 1)) (e.target.toNat + 1) := by
  have hvertex := numVertices_addVertex g (largerEnd e)
  rw [toNat_largerEnd] at hvertex
  refine Eq.trans hvertex ?_
  omega

theorem mem_edges_addEdge {g : Graph D} {e d : Edge} :
    d ∈ (g.addEdge e).edges.toList ↔ d ∈ g.edges.toList ∨ d = e := by
  show d ∈ ((g.addVertex (largerEnd e)).edges.push e).toList ↔ _
  rw [Array.toList_push, List.mem_append, List.mem_singleton, edges_addVertex]

theorem eq_default_of_mem_addVertex {g : Graph D} (h : ∀ value ∈ g.data, value = default)
    (v : VertexId) : ∀ value ∈ (g.addVertex v).data, value = default := by
  intro value hm
  unfold addVertex at hm
  split at hm
  · exact h value hm
  · rcases Array.mem_append.1 hm with hm | hm
    · exact h value hm
    · exact Array.eq_of_mem_replicate hm

/-- A graph that only grew holds nothing but default values. -/
theorem eq_default_of_mem_addEdges {g : Graph D} (h : ∀ value ∈ g.data, value = default)
    (edges : List Edge) : ∀ value ∈ (g.addEdges edges).data, value = default := by
  induction edges generalizing g with
  | nil => exact h
  | cons e edges ih => exact ih (eq_default_of_mem_addVertex h (largerEnd e))

/-! ### Histories -/

/-- The graph after a change. -/
def change (g : Graph D) : Change → Graph D
  | .addVertex v => g.addVertex v
  | .addEdge e => g.addEdge e
  | .finalize => g.finalize

/-- What a history makes of a new graph. -/
def grow (changes : List Change) : Graph D := changes.foldl change empty

theorem grow_append_singleton (changes : List Change) (c : Change) :
    (grow (changes ++ [c]) : Graph D) = (grow changes).change c := by
  rw [grow, List.foldl_append]
  rfl

/-- **One change.** -/
theorem Recalls.change {changes : List Change} {g : Graph D} (h : Recalls changes g)
    (c : Change) : Recalls (changes ++ [c]) (g.change c) := by
  cases c with
  | addVertex v =>
    constructor
    · rw [Change.idSpace_append_singleton, ← h.numVertices_eq]
      exact numVertices_addVertex g v
    · intro e
      show e ∈ (g.addVertex v).edges.toList ↔ _
      rw [edges_addVertex, h.mem_edges]
      simp
    · rw [Change.settled_append_singleton, ← h.finalized_iff]
      refine (finalized_addVertex g v).trans ?_
      simp [Change.Unsettles, h.numVertices_eq]
  | addEdge e =>
    constructor
    · rw [Change.idSpace_append_singleton, ← h.numVertices_eq]
      exact numVertices_addEdge g e
    · intro d
      refine mem_edges_addEdge.trans ?_
      rw [h.mem_edges]
      simp
    · rw [Change.settled_append_singleton]
      show false = true ↔ _
      simp [Change.Unsettles]
  | finalize =>
    constructor
    · rw [Change.idSpace_append_singleton, ← h.numVertices_eq]
      rfl
    · intro e
      refine mem_edges_finalize.trans ?_
      rw [h.mem_edges]
      simp
    · rw [Change.settled_append_singleton]
      exact iff_of_true rfl (.inl rfl)

/-- **A whole history.** -/
theorem recalls_grow (changes : List Change) : Recalls changes (grow changes : Graph D) := by
  induction changes using List.reverseRecOn with
  | nil => exact recalls_empty
  | append_singleton changes c ih =>
    rw [grow_append_singleton]
    exact ih.change c

/-- **What a history leaves in a graph.** It has one vertex more than the largest that was
mentioned, every stored edge lies between its vertices, and it is finalized while nothing has
unsettled it. Whenever it is finalized, its rows are the strictly ascending lists of the edges that
were added. Finalizing it reads and writes within its arrays, a second time changes nothing, and
what the topology of a finalized graph is depends on which edges were added and on the largest
vertex alone. -/
theorem grow_spec (changes : List Change) :
    (grow changes : Graph D).numVertices = idSpace changes ∧
    (∀ e ∈ (grow changes : Graph D).edges.toList,
      e.source.toNat < idSpace changes ∧ e.target.toNat < idSpace changes) ∧
    ((grow changes : Graph D).finalized = true ↔ Settled changes) ∧
    ((grow changes : Graph D).finalized = true → Adjacent changes (grow changes : Graph D)) ∧
    (rows? (idSpace changes) (grow changes : Graph D).arrangedEdges =
        some (grow changes : Graph D).finalize.topology.outRows ∧
      rows? (idSpace changes) ((grow changes : Graph D).arrangedEdges.map Edge.reverse) =
        some (grow changes : Graph D).finalize.topology.inRows) ∧
    (grow changes : Graph D).finalize.finalize = (grow changes : Graph D).finalize ∧
    ∀ changes' : List Change, idSpace changes' = idSpace changes →
      (∀ e, .addEdge e ∈ changes' ↔ .addEdge e ∈ changes) →
      (grow changes : Graph D).finalized = true → (grow changes' : Graph D).finalized = true →
      (grow changes' : Graph D).topology = (grow changes : Graph D).topology := by
  have h : Recalls changes (grow changes : Graph D) := recalls_grow changes
  refine ⟨h.numVertices_eq, ?_, h.finalized_iff, adjacent_of_recalls h, ?_, ?_, ?_⟩
  · rw [← h.numVertices_eq]
    exact (grow changes : Graph D).edges_below
  · rw [← h.numVertices_eq]
    exact rows?_finalize _
  · exact finalize_of_finalized rfl
  · intro changes' hspace hsame hf hf'
    have h' : Recalls changes' (grow changes' : Graph D) := recalls_grow changes'
    refine topology_eq_of_mem_iff hf' hf ?_ fun e => ?_
    · rw [h.numVertices_eq, h'.numVertices_eq, hspace]
    · rw [h.mem_edges, h'.mem_edges, hsame]

end Growing

/-- Three edges, one of them twice, and a vertex that there is room for. -/
def fan : List Change :=
  [.addEdge ⟨0, 2⟩, .addEdge ⟨0, 1⟩, .addEdge ⟨0, 2⟩, .finalize, .addVertex 1]

/-- The vertex does not unsettle the graph, and the repeated edge is counted once. -/
theorem grow_spec_fan :
    (grow fan : Graph UInt8).numVertices = 3 ∧ Settled fan ∧
      Adjacent fan (grow fan : Graph UInt8) ∧ (grow fan : Graph UInt8).numEdges = 2 := by
  have hf : (grow fan : Graph UInt8).finalized = true := rfl
  obtain ⟨hspace, -, hsettled, hadjacent, -⟩ := grow_spec (D := UInt8) fan
  have hedges : (distinctEdges fan).length = 2 := by decide
  exact ⟨hspace.trans (by decide), hsettled.1 hf, hadjacent hf,
    (hadjacent hf).numEdges_eq.trans hedges⟩

end Graph

end Superstep
