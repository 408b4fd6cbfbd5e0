import Mathlib.Algebra.BigOperators.Fin
import Mathlib.Algebra.Ring.GeomSum
import Mathlib.LinearAlgebra.Matrix.Stochastic
import Superstep.Proofs.PageRank.Decomposition
import Superstep.Proofs.Rational

/-!
# Decomposition as a random walk

A walker at a vertex takes one of its out-edges, each with the same probability; at a vertex without
out-edges the walk ends. `Graph.transition` is the matrix of that walk. With exact weights, no
threshold and a share `a` between zero and one, what arrives at a vertex in round `r` is the weight
of the walks of length `r` from the source to it, times `(1 - a) ^ r`; the vertex retains the share
`a` of it, and in the last round all of it stops there. So a decomposition computes the series

```
a * ∑ k < R - 1, (1 - a) ^ k * W ^ k   and   (1 - a) ^ (R - 1) * W ^ (R - 1).
```

The induction is on the rounds of a strand. Weights that are zero are dropped on the way, and that
is where the sign of everything comes in: nothing negative is dropped with them.

## Main results

* `level_eq`: what arrives in each round
* `rounds_eq_series`: what is left behind the last one
-/

namespace Superstep

/-! ### The matrix of a graph -/

namespace Graph

variable {D : Type}

/-- The vertex with a number. -/
def idOf (g : Graph D) (i : Fin g.numVertices) : VertexId := UInt32.ofNat i

/-- The probability that a walker goes from one vertex to another. -/
def transition (g : Graph D) : Matrix (Fin g.numVertices) (Fin g.numVertices) ℚ := fun u v =>
  if ⟨g.idOf u, g.idOf v⟩ ∈ g.edges.toList then 1 / (g.outDegreeOf (g.idOf u) : ℚ) else 0

variable {g : Graph D}

@[simp] theorem toNat_idOf (i : Fin g.numVertices) : (g.idOf i).toNat = i :=
  UInt32.toNat_ofNat_of_lt' (Nat.lt_of_lt_of_le i.isLt g.size_le)

theorem idOf_lt (i : Fin g.numVertices) : (g.idOf i).toNat < g.numVertices := by
  rw [toNat_idOf]
  exact i.isLt

theorem idOf_injective : Function.Injective g.idOf := fun i j h => by
  rw [Fin.ext_iff, ← toNat_idOf i, ← toNat_idOf j, h]

theorem exists_idOf {v : VertexId} (h : v.toNat < g.numVertices) :
    ∃ i : Fin g.numVertices, g.idOf i = v :=
  ⟨⟨v.toNat, h⟩, UInt32.ofNat_toNat⟩

/-- A sum over all vertices. -/
theorem sum_ids (f : VertexId → ℚ) : (g.ids.map f).sum = ∑ i, f (g.idOf i) := by
  have hids : g.ids = (List.finRange g.numVertices).map g.idOf := by
    refine List.ext_getElem (by simp [ids]) fun i _ _ => ?_
    simp [ids, idOf]
  rw [hids, List.map_map, Fin.sum_univ_def]
  rfl

/-- A sum over some of the vertices, given in ascending order. -/
theorem sum_ascending {l : List VertexId} (ascending : l.Pairwise (· < ·))
    (below : ∀ v ∈ l, v.toNat < g.numVertices) (f : VertexId → ℚ) :
    (l.map f).sum = ∑ i, if g.idOf i ∈ l then f (g.idOf i) else 0 := by
  have hl : l = g.ids.filter (· ∈ l) :=
    eq_of_ascending ascending (g.pairwise_ids.filter _) fun v => by
      rw [List.mem_filter, decide_eq_true_eq, mem_ids]
      exact ⟨fun h => ⟨below v h, h⟩, And.right⟩
  have hfilter : ∀ ids : List VertexId, ((ids.filter (· ∈ l)).map f).sum =
      (ids.map fun v => if v ∈ l then f v else 0).sum := by
    intro ids
    induction ids with
    | nil => rfl
    | cons v ids ih => by_cases h : v ∈ l <;> simp [h, ih]
  conv_lhs => rw [hl]
  rw [hfilter, sum_ids]

theorem transition_nonneg (u v : Fin g.numVertices) : 0 ≤ g.transition u v := by
  rw [transition]
  split
  · positivity
  · exact le_refl 0

theorem transition_pow_nonneg (k : Nat) (u v : Fin g.numVertices) :
    0 ≤ (g.transition ^ k) u v := by
  induction k generalizing v with
  | zero =>
    rw [pow_zero, Matrix.one_apply]
    split <;> simp
  | succ k ih =>
    rw [pow_succ, Matrix.mul_apply]
    exact Finset.sum_nonneg fun w _ => mul_nonneg (ih w) (transition_nonneg w v)

/-- A row has the same probability for each out-edge of its vertex. -/
theorem sum_transition_eq (hf : g.finalized = true) (u : Fin g.numVertices) :
    ∑ v, g.transition u v =
      (g.outDegreeOf (g.idOf u) : ℚ) / (g.outDegreeOf (g.idOf u) : ℚ) := by
  have h := sum_ascending (pairwise_targetsOf hf (g.idOf u)) (fun v => lt_of_mem_targetsOf)
    fun _ => 1 / (g.outDegreeOf (g.idOf u) : ℚ)
  simp only [mem_targetsOf] at h
  simp only [transition, ← h, List.map_const', List.sum_replicate, nsmul_eq_mul]
  rw [← outDegreeOf, mul_one_div]

/-- Where no vertex is a dead end, the walk never ends. -/
theorem sum_transition (hf : g.finalized = true) (alive : ∀ i, 0 < g.outDegreeOf (g.idOf i))
    (u : Fin g.numVertices) : ∑ v, g.transition u v = 1 := by
  have hpos : (g.outDegreeOf (g.idOf u) : ℚ) ≠ 0 := by exact_mod_cast (alive u).ne'
  rw [sum_transition_eq hf, div_self hpos]

/-- In any case it goes on at most once. -/
theorem sum_transition_le (hf : g.finalized = true) (u : Fin g.numVertices) :
    ∑ v, g.transition u v ≤ 1 := by
  rw [sum_transition_eq hf]
  exact div_self_le_one _

theorem sum_transition_pow (hf : g.finalized = true) (alive : ∀ i, 0 < g.outDegreeOf (g.idOf i))
    (k : Nat) (u : Fin g.numVertices) : ∑ v, (g.transition ^ k) u v = 1 := by
  have hrow : g.transition ∈ Matrix.rowStochastic ℚ (Fin g.numVertices) :=
    Matrix.mem_rowStochastic_iff_sum.2 ⟨transition_nonneg, sum_transition hf alive⟩
  exact Matrix.sum_row_of_mem_rowStochastic (pow_mem hrow k) u

end Graph

namespace PageRank

/-! ### Strands of exact weights -/

section Walk

variable {D : Type} {g : Graph D} {settings : FlowSettings ℚ}

theorem passedShare_nonneg (h1 : settings.resetProb ≤ 1) (outDegree : Nat) :
    0 ≤ Decomposition.passedShare settings outDegree := by
  cases outDegree with
  | zero => exact mul_nonneg (sub_nonneg.2 h1) zero_le_one
  | succ n => exact mul_nonneg (sub_nonneg.2 h1) (div_nonneg zero_le_one (Nat.cast_nonneg _))

theorem passedShare_of_pos {outDegree : Nat} (h : 0 < outDegree) :
    Decomposition.passedShare settings outDegree = (1 - settings.resetProb) * (1 / outDegree) := by
  obtain ⟨n, rfl⟩ := Nat.exists_eq_succ_of_ne_zero h.ne'
  rfl

/-- What is passed on of a weight. -/
def pruned (threshold w : ℚ) : ℚ := if threshold < w then w else 0

/-- Without a threshold, what is dropped is zero. -/
theorem pruned_zero {w : ℚ} (h : 0 ≤ w) : pruned 0 w = w := by
  rw [pruned]
  split
  · rfl
  · rename_i hle
    exact le_antisymm h (not_lt.1 hle)

theorem getD_passed (settings : FlowSettings ℚ) (g : Graph D) (σ : Strand ℚ)
    (seed : Option VertexId) (r : Nat) (u : VertexId) :
    (σ.passed settings g seed r u).getD 0 = pruned settings.threshold
      (Decomposition.passedShare settings (g.outDegreeOf u) * (σ.arriving seed r u).getD 0) := by
  rw [Strand.passed]
  cases σ.arriving seed r u with
  | none => simp [pruned]
  | some w =>
    rw [Option.map_some, Option.filter_some, Option.getD_some, pruned]
    simp only [decide_eq_true_eq]
    split <;> rfl

/-- What arrives at a vertex in round `r`. -/
def level (settings : FlowSettings ℚ) (g : Graph D) (s : VertexId) (cap r : Nat) (v : VertexId) :
    ℚ :=
  ((Strand.idle.rounds settings g (some s) cap r).arriving (some s) r v).getD 0

/-- What arrives first is the unit that the source starts with. -/
theorem level_zero (settings : FlowSettings ℚ) (g : Graph D) (s : VertexId) (cap : Nat)
    (v : VertexId) : level settings g s cap 0 v = if s = v then 1 else 0 := by
  rw [level, Strand.arriving, if_pos rfl]
  by_cases h : s = v <;> simp [h]

/-- What is pending behind a round that is not the last one. -/
theorem pending_rounds_succ {cap r : Nat} (hr : r + 1 < cap) (seed : Option VertexId)
    (v : VertexId) :
    (Strand.idle.rounds settings g seed cap (r + 1)).pending v =
      mergeAllInto (· + ·) none ((g.sourcesOf v).filterMap
        ((Strand.idle.rounds settings g seed cap r).passed settings g seed r)) := by
  rw [Strand.rounds, Strand.next, if_neg (Nat.not_le.2 hr)]

/-- What arrives next is what the sources pass on. -/
theorem level_succ {cap : Nat} {s : VertexId} {r : Nat} (hr : r + 1 < cap) (v : VertexId) :
    level settings g s cap (r + 1) v =
      ((g.sourcesOf v).map fun u => pruned settings.threshold
        (Decomposition.passedShare settings (g.outDegreeOf u) *
          level settings g s cap r u)).sum := by
  rw [level, Strand.arriving, if_neg (Nat.succ_ne_zero r), pending_rounds_succ hr,
    getD_mergeAllInto_add, sum_filterMap, Option.getD_none, zero_add]
  exact congrArg List.sum (List.map_congr_left fun u _ => getD_passed ..)

variable (hf : g.finalized = true)
  (h1 : settings.resetProb ≤ 1) (hθ : settings.threshold = 0)
  {cap : Nat}
include h1 hθ

include hf in
/-- **What arrives in round `r` is what walks of length `r` bring**, times `(1 - a) ^ r`. -/
theorem level_eq (s v : Fin g.numVertices) {r : Nat} (hr : r < cap) :
    level settings g (g.idOf s) cap r (g.idOf v) =
      (1 - settings.resetProb) ^ r * (g.transition ^ r) s v := by
  induction r generalizing v with
  | zero =>
    rw [pow_zero, pow_zero, Matrix.one_apply, one_mul, level_zero]
    simp only [Graph.idOf_injective.eq_iff]
  | succ r ih =>
    have ih := fun v => ih v (by omega)
    have nonneg : ∀ u, 0 ≤ level settings g (g.idOf s) cap r (g.idOf u) := by
      intro u
      rw [ih]
      exact mul_nonneg (pow_nonneg (sub_nonneg.2 h1) r) (Graph.transition_pow_nonneg r s u)
    have hterm : ∀ u, (if g.idOf u ∈ g.sourcesOf (g.idOf v) then
        pruned settings.threshold (Decomposition.passedShare settings (g.outDegreeOf (g.idOf u)) *
          level settings g (g.idOf s) cap r (g.idOf u)) else 0) =
        (1 - settings.resetProb) ^ (r + 1) * ((g.transition ^ r) s u * g.transition u v) := by
      intro u
      have hweight := mul_nonneg (passedShare_nonneg h1 (g.outDegreeOf (g.idOf u))) (nonneg u)
      rw [hθ, pruned_zero hweight, ih, Graph.transition]
      by_cases h : ⟨g.idOf u, g.idOf v⟩ ∈ g.edges.toList
      · have hpos : 0 < g.outDegreeOf (g.idOf u) :=
          List.length_pos_of_mem (Graph.mem_targetsOf.2 h)
        rw [if_pos (Graph.mem_sourcesOf.2 h), if_pos h, passedShare_of_pos hpos]
        ring
      · rw [if_neg fun hs => h (Graph.mem_sourcesOf.1 hs), if_neg h]
        ring
    rw [level_succ hr,
      Graph.sum_ascending (Graph.pairwise_sourcesOf hf _) (fun u => Graph.lt_of_mem_sourcesOf),
      Finset.sum_congr rfl fun u _ => hterm u, ← Finset.mul_sum, pow_succ g.transition,
      Matrix.mul_apply]

omit h1 hθ in
/-- What was retained is the share `a` of what arrived in the rounds so far. -/
theorem rounds_residual (s v : VertexId) {r : Nat} (hr : r < cap) :
    ((Strand.idle.rounds settings g (some s) cap r).residual v).getD 0 =
      settings.resetProb * ∑ k ∈ Finset.range r, level settings g s cap k v := by
  induction r with
  | zero => simp [Strand.rounds, Strand.idle]
  | succ r ih =>
    have hnext : (Strand.idle.rounds settings g (some s) cap (r + 1)).residual v =
        Sparse.added ((Strand.idle.rounds settings g (some s) cap r).residual v)
          (((Strand.idle.rounds settings g (some s) cap r).arriving (some s) r v).map
            (settings.resetProb * ·)) := by
      rw [Strand.rounds, Strand.next, if_neg (Nat.not_le.2 hr)]
    have hmap : ∀ o : Option ℚ, (o.map (settings.resetProb * ·)).getD 0 =
        settings.resetProb * o.getD 0 := by
      intro o
      cases o <;> simp
    rw [hnext, Sparse.getD_added, ih (by omega), hmap, Finset.sum_range_succ, mul_add]
    rfl

omit h1 hθ in
theorem rounds_flow (seed : Option VertexId) (v : VertexId) {r : Nat} (hr : r < cap) :
    (Strand.idle.rounds settings g seed cap r).flow v = none := by
  induction r with
  | zero => rfl
  | succ r ih =>
    rw [Strand.rounds, Strand.next, if_neg (Nat.not_le.2 hr)]
    exact ih (by omega)

omit h1 hθ in
/-- The last round retains nothing and stops what arrives. -/
theorem rounds_last (s v : VertexId) (r : Nat) :
    ((Strand.idle.rounds settings g (some s) (r + 1) (r + 1)).residual v).getD 0 =
        settings.resetProb * ∑ k ∈ Finset.range r, level settings g s (r + 1) k v ∧
      ((Strand.idle.rounds settings g (some s) (r + 1) (r + 1)).flow v).getD 0 =
        level settings g s (r + 1) r v := by
  rw [Strand.rounds, Strand.next, if_pos (Nat.le_refl _)]
  refine ⟨rounds_residual s v (Nat.lt_succ_self r), ?_⟩
  rw [Sparse.getD_added, rounds_flow _ _ (Nat.lt_succ_self r), Option.getD_none, zero_add]
  rfl

include hf in
/-- **The strand of a seeded source is the series of its walk.** -/
theorem rounds_eq_series (s v : Fin g.numVertices) (r : Nat) :
    ((Strand.idle.rounds settings g (some (g.idOf s)) (r + 1) (r + 1)).residual
        (g.idOf v)).getD 0 =
        settings.resetProb * ∑ k ∈ Finset.range r,
          (1 - settings.resetProb) ^ k * (g.transition ^ k) s v ∧
      ((Strand.idle.rounds settings g (some (g.idOf s)) (r + 1) (r + 1)).flow
        (g.idOf v)).getD 0 = (1 - settings.resetProb) ^ r * (g.transition ^ r) s v := by
  rw [(rounds_last _ _ r).1, (rounds_last _ _ r).2, level_eq hf h1 hθ s v (Nat.lt_succ_self r)]
  refine ⟨congrArg _ (Finset.sum_congr rfl fun k hk => ?_), rfl⟩
  exact level_eq hf h1 hθ s v ((Finset.mem_range.1 hk).trans (Nat.lt_succ_self r))

end Walk

/-! ### What a decomposition leaves behind -/

/-- What vertex `v` retained of source `s`. -/
def residualAt (g : Graph (VertexState ℚ)) (v s : VertexId) : ℚ :=
  ((g.value? v).bind (·.residual.get? s)).getD 0

/-- What of source `s` stopped at vertex `v`. -/
def flowAt (g : Graph (VertexState ℚ)) (v s : VertexId) : ℚ :=
  ((g.value? v).bind (·.flow.get? s)).getD 0

theorem seedOf_idOf {D : Type} {settings : FlowSettings ℚ} {g : Graph D} {s : Fin g.numVertices}
    (h : settings.isSeeded (g.idOf s) = true) : seedOf settings g (g.idOf s) = some (g.idOf s) := by
  rw [seedOf, if_pos ⟨h, Graph.idOf_lt s⟩]

section Series

variable {settings : FlowSettings ℚ} {g g' : Graph (VertexState ℚ)}

/-- The series that a seeded source has, once the rounds are over. -/
theorem Decomposed.series {cap : Nat} (hcap : 1 ≤ cap) (h : Decomposed settings cap g g')
    (hf : g.finalized = true) (h1 : settings.resetProb ≤ 1) (hθ : settings.threshold = 0)
    {s : Fin g.numVertices} (hs : settings.isSeeded (g.idOf s) = true) (v : Fin g.numVertices) :
    residualAt g' (g.idOf v) (g.idOf s) = settings.resetProb * ∑ k ∈ Finset.range (cap - 1),
        (1 - settings.resetProb) ^ k * (g.transition ^ k) s v ∧
      flowAt g' (g.idOf v) (g.idOf s) =
        (1 - settings.resetProb) ^ (cap - 1) * (g.transition ^ (cap - 1)) s v := by
  obtain ⟨r, rfl⟩ := Nat.exists_eq_add_of_le' hcap
  rw [residualAt, flowAt, h.residual, h.flow, seedOf_idOf hs, Nat.add_sub_cancel]
  exact rounds_eq_series hf h1 hθ s v r

/-- The truncated series of a walk, over all vertices. -/
theorem sum_series {D : Type} (g : Graph D) (a : ℚ) (n : Nat) (s : Fin g.numVertices) :
    ∑ v, (a * ∑ k ∈ Finset.range n, (1 - a) ^ k * (g.transition ^ k) s v +
        (1 - a) ^ n * (g.transition ^ n) s v) =
      a * ∑ k ∈ Finset.range n, (1 - a) ^ k * ∑ v, (g.transition ^ k) s v +
        (1 - a) ^ n * ∑ v, (g.transition ^ n) s v := by
  rw [Finset.sum_add_distrib, ← Finset.mul_sum, Finset.sum_comm, ← Finset.mul_sum]
  simp only [Finset.mul_sum]

/-- What is retained in `n` rounds and what is left behind them make up a unit. -/
theorem geom_total (a : ℚ) (n : Nat) :
    a * ∑ k ∈ Finset.range n, (1 - a) ^ k + (1 - a) ^ n = 1 := by
  have := mul_neg_geom_sum (1 - a) n
  rw [sub_sub_cancel] at this
  rw [this, sub_add_cancel]

/-- Where no vertex is a dead end, nothing of a source is lost. -/
theorem series_total {D : Type} {g : Graph D} (hf : g.finalized = true)
    (alive : ∀ i, 0 < g.outDegreeOf (g.idOf i)) (a : ℚ) (n : Nat) (s : Fin g.numVertices) :
    ∑ v, (a * ∑ k ∈ Finset.range n, (1 - a) ^ k * (g.transition ^ k) s v +
      (1 - a) ^ n * (g.transition ^ n) s v) = 1 := by
  simp only [sum_series, Graph.sum_transition_pow hf alive, mul_one, geom_total]

end Series

/-- **A decomposition computes the truncated series of the random walk**, whatever the sources, the
number of workers and the order of deliveries. Sources that are not seeded have no entry, nothing
is left pending, and where no vertex is a dead end all of a source is accounted for.

An engine that keeps states as bytes has to get the flow back from them as it was. -/
theorem decomposition_eq_series [JsonWeight ℚ] {settings : FlowSettings ℚ}
    {g : Graph (VertexState ℚ)} {options : EngineOptions}
    {e : Engine (Sparse ℚ) (VertexState ℚ) (Sparse ℚ) Unit}
    (new : Engine.create (Decomposition.program settings) VertexMap.empty g.numVertices options =
      .ok e)
    (hf : g.finalized = true) (fresh : IsFresh g) (h1 : settings.resetProb ≤ 1)
    (hθ : settings.threshold = 0) (hcap : 1 ≤ options.maxRounds)
    (restores : options.persist = true → Restores ℚ) (schedules : Nat → Schedule) :
    let R := options.maxRounds
    let a := settings.resetProb
    let done := e.signalAll.run g schedules
    (∃ summary, done.result = .ok summary) ∧
    (∀ s v : Fin g.numVertices, settings.isSeeded (g.idOf s) = true →
      residualAt done.graph (g.idOf v) (g.idOf s) =
        a * ∑ k ∈ Finset.range (R - 1), (1 - a) ^ k * (g.transition ^ k) s v ∧
      flowAt done.graph (g.idOf v) (g.idOf s) =
        (1 - a) ^ (R - 1) * (g.transition ^ (R - 1)) s v) ∧
    (∀ key, ¬ (settings.isSeeded key = true ∧ key.toNat < g.numVertices) → ∀ v,
      (done.graph.value? v).bind (·.residual.get? key) = none ∧
      (done.graph.value? v).bind (·.flow.get? key) = none) ∧
    (∀ v, done.engine.accumulator.peek v = none) ∧
    ((∀ v, 0 < g.outDegreeOf (g.idOf v)) → ∀ s : Fin g.numVertices,
      settings.isSeeded (g.idOf s) = true →
        ∑ v, (residualAt done.graph (g.idOf v) (g.idOf s) +
          flowAt done.graph (g.idOf v) (g.idOf s)) = 1) := by
  obtain ⟨hresult, hdone, hpending⟩ := decomposed_of_create new hf fresh
    (fun w _ => Sparse.fromZero w) (.inr Sparse.orderFree_merge) restores schedules
  refine ⟨hresult, fun s v hs => hdone.series hcap hf h1 hθ hs v,
    fun key hkey v => hdone.absent (seedOf_eq_none hkey) v, hpending hcap, fun alive s hs => ?_⟩
  rw [← series_total hf alive settings.resetProb (options.maxRounds - 1) s]
  refine Finset.sum_congr rfl fun v _ => ?_
  rw [(hdone.series hcap hf h1 hθ hs v).1, (hdone.series hcap hf h1 hθ hs v).2]

/-- Half of what arrives is retained, and every vertex is a source. -/
def evenSettings : FlowSettings ℚ := ⟨1 / 2, 0, none⟩

/-- Three rounds of two workers, of which the second one comes first. -/
def cycleRun : Outcome (Sparse ℚ) (VertexState ℚ) (Sparse ℚ) Unit RunSummary :=
  (Engine.ofProgram (Decomposition.program evenSettings) VertexMap.empty 2
    ⟨3, 2, false⟩).signalAll.run (Graph.twoCycle {} {}) fun _ => ⟨[1, 0], [], [1]⟩

theorem decomposition_eq_series_cycle :
    residualAt cycleRun.graph 0 0 = 1 / 2 ∧ flowAt cycleRun.graph 0 0 = 1 / 4 := by
  have new : Engine.create (Decomposition.program evenSettings) VertexMap.empty
      (Graph.twoCycle (D := VertexState ℚ) {} {}).numVertices ⟨3, 2, false⟩ = .ok _ := rfl
  obtain ⟨hresidual, hflow⟩ := (decomposition_eq_series new rfl (by simp [IsFresh, Graph.twoCycle])
    (by norm_num [evenSettings]) rfl (by decide) (fun h => absurd h (by decide))
    fun _ => ⟨[1, 0], [], [1]⟩).2.1 (0 : Fin 2) (0 : Fin 2) rfl
  exact ⟨hresidual.trans (by decide +kernel), hflow.trans (by decide +kernel)⟩

end PageRank

end Superstep
