import Superstep.Graph.Topology

/-!
# Compressed rows

The rows of a topology are built in one array, one row after the other, with a second array that
says where the row of each vertex starts. Counting fills them in two passes over the edges: the
first counts how long every row is, sums of the counts are the starts, and the second puts every
edge where the cursor of its source stands and moves that cursor on. Edges of one source keep their
order, so rows that come from edges in order of their targets ascend, whatever the order of the
sources is.

## Bounds

Every access to an array is asked whether it lies within the array, and one that does not leaves
nothing behind. Between the vertices of a graph none is refused (`rows?_eq_some`), so a topology can
be built this way (`Topology.compressed`), and it is the topology of the edges.
-/

namespace Superstep

/-! ### Arrays as tables -/

section Tables

variable {α : Type}

/-- Writes into a place of an array, if there is such a place. -/
def write? (a : Array α) (i : Nat) (x : α) : Option (Array α) :=
  if h : i < a.size then some (a.set i x h) else none

/-- The array of the first `n` values of a function. -/
def tabulate (n : Nat) (f : Nat → α) : Array α := Array.ofFn fun i : Fin n => f i

@[simp] theorem size_tabulate (n : Nat) (f : Nat → α) : (tabulate n f).size = n := Array.size_ofFn

theorem getElem?_tabulate {n i : Nat} (h : i < n) (f : Nat → α) :
    (tabulate n f)[i]? = some (f i) := by
  rw [tabulate, Array.getElem?_ofFn, dif_pos h]

theorem tabulate_congr {n : Nat} {f f' : Nat → α} (h : ∀ i < n, f i = f' i) :
    tabulate n f = tabulate n f' := by
  rw [tabulate, tabulate]
  exact congrArg Array.ofFn (funext fun i => h i i.isLt)

theorem replicate_eq_tabulate (n : Nat) (x : α) : Array.replicate n x = tabulate n fun _ => x := by
  refine Array.ext (by simp) fun i hi hi' => ?_
  simp [tabulate]

theorem write?_tabulate {n i : Nat} (h : i < n) (f : Nat → α) (x : α) :
    write? (tabulate n f) i x = some (tabulate n fun j => if j = i then x else f j) := by
  rw [write?, dif_pos (by simpa using h), Option.some_inj]
  refine Array.ext (by simp) fun j hj hj' => ?_
  simp only [tabulate, Array.getElem_set, Array.getElem_ofFn, eq_comm (a := j)]

end Tables

/-! ### Counting -/

/-- Counts an edge, one place behind the place of its source. -/
def countEdge (counts : Array Nat) (e : Edge) : Option (Array Nat) := do
  let count ← counts[e.source.toNat + 1]?
  write? counts (e.source.toNat + 1) (count + 1)

/-- Adds to the place behind `v` what stands at the place of `v`. -/
def addPrevious (offsets : Array Nat) (v : Nat) : Option (Array Nat) := do
  let count ← offsets[v + 1]?
  let previous ← offsets[v]?
  write? offsets (v + 1) (count + previous)

/-- Rows that are being filled: where the next neighbour of each vertex goes, and those that are
there. -/
structure Filling where
  cursors : Array Nat
  neighbours : Array VertexId

/-- Puts the target of an edge where the cursor of its source stands, and moves the cursor on. -/
def place (filling : Filling) (e : Edge) : Option Filling := do
  let cursor ← filling.cursors[e.source.toNat]?
  let neighbours ← write? filling.neighbours cursor e.target
  let cursors ← write? filling.cursors e.source.toNat (cursor + 1)
  some ⟨cursors, neighbours⟩

/-- Rows one after the other, and where each of them starts. The row of the last vertex ends where
the row of a further one would start. -/
structure CompressedRows where
  offsets : Array Nat
  neighbours : Array VertexId

/-- The rows of `size` vertices. -/
def compress (size : Nat) (edges : List Edge) : Option CompressedRows := do
  let counts ← edges.foldlM countEdge (Array.replicate (size + 1) 0)
  let offsets ← (List.range size).foldlM addPrevious counts
  let total ← offsets[size]?
  let filling ← edges.foldlM place ⟨offsets, Array.replicate total 0⟩
  some ⟨offsets, filling.neighbours⟩

/-- The row of a vertex. -/
def CompressedRows.row? (rows : CompressedRows) (v : Nat) : Option (List VertexId) := do
  let start ← rows.offsets[v]?
  let stop ← rows.offsets[v + 1]?
  if start ≤ stop ∧ stop ≤ rows.neighbours.size then
    some (rows.neighbours.extract start stop).toList
  else none

/-- The rows of `size` vertices, cut apart. -/
def rows? (size : Nat) (edges : List Edge) : Option (Array (List VertexId)) := do
  let rows ← compress size edges
  let cut ← (List.range size).mapM rows.row?
  some cut.toArray

/-! ### What the passes compute -/

/-- The targets of the edges that start at vertex `v`, in the order of the edges. -/
def rowAt (edges : List Edge) (v : Nat) : List VertexId :=
  (edges.filter fun e => e.source.toNat == v).map Edge.target

/-- The number of edges that start below vertex `v`. -/
def startOf (edges : List Edge) (v : Nat) : Nat := edges.countP fun e => e.source.toNat < v

section Passes

variable {size : Nat} {edges : List Edge}

theorem rowAt_append (edges edges' : List Edge) (v : Nat) :
    rowAt (edges ++ edges') v = rowAt edges v ++ rowAt edges' v := by
  rw [rowAt, List.filter_append, List.map_append]
  rfl

theorem rowAt_singleton (e : Edge) (v : Nat) :
    rowAt [e] v = if e.source.toNat = v then [e.target] else [] := by
  by_cases h : e.source.toNat = v <;> simp [rowAt, h]

theorem length_rowAt (edges : List Edge) (v : Nat) :
    (rowAt edges v).length = edges.countP fun e => e.source.toNat == v := by
  rw [rowAt, List.length_map, List.countP_eq_length_filter]

/-- A row ends where the next one starts. -/
theorem startOf_succ (edges : List Edge) (v : Nat) :
    startOf edges (v + 1) = startOf edges v + (rowAt edges v).length := by
  rw [length_rowAt]
  induction edges with
  | nil => rfl
  | cons e edges ih =>
    simp only [startOf, List.countP_cons, decide_eq_true_eq, beq_iff_eq] at ih ⊢
    split <;> split <;> split <;> omega

theorem startOf_mono (edges : List Edge) {v w : Nat} (h : v ≤ w) :
    startOf edges v ≤ startOf edges w := by
  refine List.countP_mono_left fun e _ he => ?_
  rw [decide_eq_true_eq] at he ⊢
  omega

/-- Different rows do not overlap. -/
theorem startOf_add_lt {v w i : Nat} (h : i < (rowAt edges v).length) (hvw : v < w) :
    startOf edges v + i < startOf edges w := by
  have hsucc := startOf_succ edges v
  have hmono : startOf edges (v + 1) ≤ startOf edges w := startOf_mono edges hvw
  omega

variable (below : ∀ e ∈ edges, e.source.toNat < size)
include below

theorem foldlM_countEdge (f : Nat → Nat) :
    edges.foldlM countEdge (tabulate (size + 1) f) =
      some (tabulate (size + 1) fun i => f i + edges.countP fun e => e.source.toNat + 1 == i) := by
  induction edges generalizing f with
  | nil => rfl
  | cons e edges ih =>
    have he := below e List.mem_cons_self
    have hcount : countEdge (tabulate (size + 1) f) e = some (tabulate (size + 1) fun i =>
        if i = e.source.toNat + 1 then f (e.source.toNat + 1) + 1 else f i) := by
      rw [countEdge, getElem?_tabulate (by omega)]
      exact write?_tabulate (by omega) f _
    rw [List.foldlM_cons, hcount]
    refine (ih (fun d hd => below d (List.mem_cons_of_mem _ hd)) _).trans ?_
    refine congrArg some (tabulate_congr fun i _ => ?_)
    rw [List.countP_cons]
    by_cases hi : i = e.source.toNat + 1
    · subst hi
      simp only [if_true, beq_self_eq_true]
      omega
    · simp [hi, Ne.symm hi]

omit below in
/-- After `k` sums the first `k + 1` places are starts of rows. -/
theorem foldlM_addPrevious {k : Nat} (hk : k ≤ size) :
    (List.range k).foldlM addPrevious
        (tabulate (size + 1) fun i => edges.countP fun e => e.source.toNat + 1 == i) =
      some (tabulate (size + 1) fun i => if i ≤ k then startOf edges i else
        edges.countP fun e => e.source.toNat + 1 == i) := by
  induction k with
  | zero =>
    refine congrArg some (tabulate_congr fun i _ => ?_)
    split
    · rename_i hi
      obtain rfl : i = 0 := by omega
      simp [startOf]
    · rfl
  | succ k ih =>
    rw [List.range_succ, List.foldlM_append, ih (by omega)]
    show (addPrevious _ k).bind some = _
    rw [Option.bind_fun_some, addPrevious, getElem?_tabulate (by omega),
      getElem?_tabulate (by omega)]
    refine (write?_tabulate (by omega) _ _).trans (congrArg some (tabulate_congr fun i _ => ?_))
    by_cases hi : i = k + 1
    · subst hi
      have hcount : (edges.countP fun e => e.source.toNat + 1 == k + 1) =
          (rowAt edges k).length :=
        (List.countP_congr fun e _ => by simp).trans (length_rowAt edges k).symm
      simp only [if_true, if_neg (Nat.not_succ_le_self k), Nat.le_refl, hcount, startOf_succ]
      omega
    · simp only [if_neg hi, show i ≤ k ↔ i ≤ k + 1 by omega]

theorem startOf_size : startOf edges size = edges.length :=
  List.countP_eq_length.2 fun e he => by simpa using below e he

end Passes

/-! ### Filling -/

/-- The edges in `done` are at their places, the next ones go behind them. -/
structure Placed (size : Nat) (edges done : List Edge) (filling : Filling) : Prop where
  cursors : filling.cursors =
    tabulate (size + 1) fun v => startOf edges v + (rowAt done v).length
  size_neighbours : filling.neighbours.size = edges.length
  neighbours : ∀ v i, i < (rowAt done v).length →
    filling.neighbours[startOf edges v + i]? = (rowAt done v)[i]?

section Filling

variable {size : Nat} {edges done rest : List Edge} {e : Edge} {filling : Filling}
  (below : ∀ e ∈ edges, e.source.toNat < size)
include below

/-- **An edge has a place of its own**, and no edge before it is overwritten. -/
theorem Placed.place (h : Placed size edges done filling) (split : edges = done ++ e :: rest) :
    ∃ filling', Superstep.place filling e = some filling' ∧
      Placed size edges (done ++ [e]) filling' := by
  have he : e.source.toNat < size := below e (by rw [split]; simp)
  have hrow : rowAt edges e.source.toNat =
      rowAt done e.source.toNat ++ e.target :: rowAt rest e.source.toNat := by
    have hcons : e :: rest = [e] ++ rest := rfl
    rw [split, hcons, rowAt_append, rowAt_append, rowAt_singleton, if_pos rfl]
    rfl
  have hlonger : ∀ v, (rowAt done v).length ≤ (rowAt edges v).length := by
    intro v
    rw [split, rowAt_append, List.length_append]
    omega
  have hfree : (rowAt done e.source.toNat).length < (rowAt edges e.source.toNat).length := by
    rw [hrow, List.length_append, List.length_cons]
    omega
  have hbound : startOf edges e.source.toNat + (rowAt done e.source.toNat).length <
      filling.neighbours.size := by
    rw [h.size_neighbours, ← startOf_size below]
    exact startOf_add_lt hfree he
  refine ⟨⟨tabulate (size + 1) fun v => startOf edges v + (rowAt (done ++ [e]) v).length,
    filling.neighbours.set _ e.target hbound⟩, ?_, rfl, ?_, fun v i hi => ?_⟩
  · rw [Superstep.place, h.cursors, getElem?_tabulate (by omega)]
    show (write? _ _ _).bind _ = _
    rw [write?, dif_pos hbound, Option.bind_some]
    show (write? _ _ _).bind _ = _
    rw [write?_tabulate (by omega), Option.bind_some]
    congr 2
    refine tabulate_congr fun v _ => ?_
    rw [rowAt_append, rowAt_singleton, List.length_append]
    by_cases hv : v = e.source.toNat
    · subst hv
      simp only [if_true, List.length_singleton]
      omega
    · simp [hv, Ne.symm hv]
  · rw [Array.size_set, h.size_neighbours]
  · rw [rowAt_append, rowAt_singleton] at hi ⊢
    rw [Array.getElem?_set]
    by_cases hv : v = e.source.toNat
    · subst hv
      rw [if_pos rfl] at hi ⊢
      rw [List.length_append, List.length_singleton] at hi
      by_cases hlast : i = (rowAt done e.source.toNat).length
      · subst hlast
        rw [if_pos rfl, List.getElem?_append_right (Nat.le_refl _), Nat.sub_self]
        rfl
      · rw [if_neg (by omega), List.getElem?_append_left (by omega)]
        exact h.neighbours _ i (by omega)
    · rw [if_neg (Ne.symm hv), List.append_nil] at hi ⊢
      have hi' : i < (rowAt edges v).length := Nat.lt_of_lt_of_le hi (hlonger v)
      have hapart : startOf edges e.source.toNat + (rowAt done e.source.toNat).length ≠
          startOf edges v + i := by
        rcases Nat.lt_or_gt_of_ne hv with hlt | hgt
        · have := startOf_add_lt hi' hlt
          omega
        · have := startOf_add_lt hfree hgt
          omega
      rw [if_neg hapart]
      exact h.neighbours v i hi

/-- All edges that remain find their places. -/
theorem Placed.foldlM (h : Placed size edges done filling) (split : edges = done ++ rest) :
    ∃ filling', rest.foldlM Superstep.place filling = some filling' ∧
      Placed size edges edges filling' := by
  induction rest generalizing done filling with
  | nil =>
    rw [List.append_nil] at split
    exact ⟨filling, rfl, by rwa [← split] at h⟩
  | cons e rest ih =>
    obtain ⟨next, hnext, hplaced⟩ := h.place below split
    obtain ⟨last, hlast, hall⟩ := ih hplaced (by rw [split, List.append_assoc]; rfl)
    refine ⟨last, ?_, hall⟩
    rw [List.foldlM_cons, hnext]
    exact hlast

end Filling

/-! ### Compressed rows of a graph -/

section Compress

variable {size : Nat} {edges : List Edge} (below : ∀ e ∈ edges, e.source.toNat < size)
include below

/-- **Compressing stays within its arrays**, and every row starts behind all edges of the vertices
before it. -/
theorem compress_eq_some : ∃ rows, compress size edges = some rows ∧
    ∀ v < size, rows.row? v = some (rowAt edges v) := by
  have hcounts := foldlM_countEdge below fun _ => 0
  simp only [Nat.zero_add] at hcounts
  have hoffsets : (List.range size).foldlM addPrevious
      (tabulate (size + 1) fun i => edges.countP fun e => e.source.toNat + 1 == i) =
        some (tabulate (size + 1) (startOf edges)) := by
    rw [foldlM_addPrevious (Nat.le_refl size)]
    exact congrArg some (tabulate_congr fun i hi => if_pos (Nat.le_of_lt_succ hi))
  have hplaced : Placed size edges []
      ⟨tabulate (size + 1) (startOf edges), Array.replicate edges.length 0⟩ :=
    ⟨rfl, Array.size_replicate, fun v i hi => absurd hi (Nat.not_lt_zero i)⟩
  obtain ⟨filling, hfilling, hall⟩ := hplaced.foldlM below rfl
  refine ⟨⟨tabulate (size + 1) (startOf edges), filling.neighbours⟩, ?_, fun v hv => ?_⟩
  · rw [compress, replicate_eq_tabulate, hcounts]
    show ((List.range size).foldlM addPrevious _).bind _ = _
    rw [hoffsets, Option.bind_some]
    show ((tabulate (size + 1) (startOf edges))[size]?).bind _ = _
    rw [getElem?_tabulate (Nat.lt_succ_self size), Option.bind_some, startOf_size below]
    show (edges.foldlM place _).bind _ = _
    rw [hfilling, Option.bind_some]
  · have hstop := startOf_succ edges v
    have hend : startOf edges (v + 1) ≤ filling.neighbours.size := by
      rw [hall.size_neighbours, ← startOf_size below]
      exact startOf_mono edges hv
    rw [CompressedRows.row?, getElem?_tabulate (by omega)]
    show ((tabulate (size + 1) (startOf edges))[v + 1]?).bind _ = _
    rw [getElem?_tabulate (by omega), Option.bind_some,
      if_pos ⟨startOf_mono edges (Nat.le_succ v), hend⟩, Option.some_inj]
    refine List.ext_getElem? fun i => ?_
    rw [Array.getElem?_toList, Array.getElem?_extract, Nat.min_eq_left hend]
    by_cases hi : i < (rowAt edges v).length
    · rw [if_pos (by omega), hall.neighbours v i hi]
    · rw [if_neg (by omega), List.getElem?_eq_none (Nat.le_of_not_lt hi)]

/-- **The rows of compressed rows are the rows of the edges.** -/
theorem rows?_eq_some : rows? size edges = some (rowsOf size edges) := by
  obtain ⟨rows, hrows, hrow⟩ := compress_eq_some below
  have hcut : ∀ l : List Nat, (∀ v ∈ l, v < size) →
      l.mapM rows.row? = some (l.map (rowAt edges)) := by
    intro l hl
    induction l with
    | nil => rfl
    | cons v l ih =>
      rw [List.mapM_cons, hrow v (hl v List.mem_cons_self),
        ih fun w hw => hl w (List.mem_cons_of_mem _ hw)]
      rfl
  rw [rows?, hrows]
  show ((List.range size).mapM rows.row?).bind _ = _
  rw [hcut _ fun v hv => List.mem_range.1 hv, Option.bind_some, Option.some_inj]
  refine Array.ext (by simp) fun i hi hi' => ?_
  simp [getElem_rowsOf, rowAt]

end Compress

/-- The rows of edges that start below `size`. -/
def rowsBelow (size : Nat) (edges : List Edge) (below : ∀ e ∈ edges, e.source.toNat < size) :
    Array (List VertexId) :=
  (rows? size edges).get (by rw [rows?_eq_some below]; rfl)

theorem rowsBelow_eq {size : Nat} {edges : List Edge}
    (below : ∀ e ∈ edges, e.source.toNat < size) :
    rowsBelow size edges below = rowsOf size edges := by
  simp only [rowsBelow, rows?_eq_some below, Option.get_some]

theorem EdgesBelow.source_lt {size : Nat} {edges : List Edge} (below : EdgesBelow size edges) :
    ∀ e ∈ edges, e.source.toNat < size := fun e he => (below e he).1

theorem EdgesBelow.reverse_source_lt {size : Nat} {edges : List Edge}
    (below : EdgesBelow size edges) : ∀ e ∈ edges.map Edge.reverse, e.source.toNat < size := by
  intro e he
  obtain ⟨d, hd, rfl⟩ := List.mem_map.1 he
  exact (below d hd).2

/-- The topology of the given edges, built in compressed rows. -/
def Topology.compressed (size : Nat) (edges : List Edge) (below : EdgesBelow size edges) :
    Topology where
  outRows := rowsBelow size edges below.source_lt
  inRows := rowsBelow size (edges.map Edge.reverse) below.reverse_source_lt
  size_inRows := by simp only [rowsBelow_eq, size_rowsOf]
  outRows_lt := by
    rw [rowsBelow_eq]
    exact (ofEdges size edges below).outRows_lt
  inRows_lt := by
    rw [rowsBelow_eq, rowsBelow_eq]
    exact (ofEdges size edges below).inRows_lt

/-- **Compressing loses nothing**: what is built is the topology of the edges. -/
theorem Topology.compressed_eq_ofEdges {size : Nat} {edges : List Edge}
    (below : EdgesBelow size edges) : compressed size edges below = ofEdges size edges below := by
  simp only [compressed, ofEdges, rowsBelow_eq]

end Superstep
