import Superstep.Proofs.PageRank.RandomWalk
import Superstep.Proofs.PageRank.Query

/-!
# Exact indices

The vectors of an index are exact if they satisfy the equation that personalized page-rank is
defined by: with the share `a` the walk restarts, and otherwise goes on from a neighbour. With `P`
for the matrix of the vectors and `W` for the walk, `P = a * 1 + (1 - a) * W * P`. Substituting the
equation into itself `n` times gives

```
P = a * ∑ k < n, (1 - a) ^ k * W ^ k + (1 - a) ^ n * W ^ n * P,
```

and the right side is what a query puts together: the first summand is what a decomposition retains,
and in the second one the flow that is left is worth the vectors of the index. So an exact index is
a fixed point of the query, whatever its number of rounds.

## Main results

* `IsExact.unfolded`: the equation, substituted into itself
* `weightAt_answer`: what a source gets, as a function on vertices
-/

namespace Superstep.PageRank

open scoped Matrix

/-- The page-rank vector of a vertex as a function on vertices. -/
def pprAt (g : Graph (VertexState ℚ)) (v id : VertexId) : ℚ :=
  (g.value? v).elim 0 fun value => value.ppr.weightAt id

/-- Every vector satisfies the equation of personalized page-rank. -/
def IsExact (a : ℚ) (g : Graph (VertexState ℚ)) : Prop :=
  ∀ v, v.toNat < g.numVertices → ∀ id, pprAt g v id =
    a * (if id = v then 1 else 0) +
      if g.outDegreeOf v = 0 then 0
      else (1 - a) / g.outDegreeOf v * ((g.targetsOf v).map fun u => pprAt g u id).sum

section Unfolding

variable {g : Graph (VertexState ℚ)} {a : ℚ}

/-- The indicator of a vertex. -/
def indicator (g : Graph (VertexState ℚ)) (id : VertexId) : Fin g.numVertices → ℚ := fun v =>
  if id = g.idOf v then 1 else 0

/-- The entries of one vertex in all vectors. -/
def column (g : Graph (VertexState ℚ)) (id : VertexId) : Fin g.numVertices → ℚ := fun v =>
  pprAt g (g.idOf v) id

/-- The equation, for all vectors at once. -/
theorem IsExact.column_eq (hf : g.finalized = true) (exact : IsExact a g) (id : VertexId) :
    column g id = a • indicator g id + (1 - a) • (g.transition *ᵥ column g id) := by
  funext v
  have hmul : (g.transition *ᵥ column g id) v =
      ((g.targetsOf (g.idOf v)).map fun u =>
        1 / (g.outDegreeOf (g.idOf v) : ℚ) * pprAt g u id).sum := by
    rw [Graph.sum_ascending (Graph.pairwise_targetsOf hf _) fun u => Graph.lt_of_mem_targetsOf]
    show ∑ u, g.transition v u * column g id u = _
    refine Finset.sum_congr rfl fun u _ => ?_
    simp only [Graph.transition, Graph.mem_targetsOf, ite_mul, zero_mul]
    rfl
  have h := exact (g.idOf v) (Graph.idOf_lt v) id
  rw [Pi.add_apply, Pi.smul_apply, Pi.smul_apply, hmul, List.sum_map_mul_left, smul_eq_mul,
    smul_eq_mul, column, h, indicator]
  congr 1
  split
  · rename_i hzero
    simp [hzero]
  · ring

/-- **The equation, substituted into itself.** -/
theorem IsExact.unfolded (hf : g.finalized = true) (exact : IsExact a g) (id : VertexId)
    (n : Nat) :
    column g id = a • ∑ k ∈ Finset.range n, (1 - a) ^ k • (g.transition ^ k *ᵥ indicator g id) +
      (1 - a) ^ n • (g.transition ^ n *ᵥ column g id) := by
  induction n with
  | zero => simp
  | succ n ih =>
    have hstep : g.transition ^ n *ᵥ column g id =
        a • (g.transition ^ n *ᵥ indicator g id) +
          (1 - a) • (g.transition ^ (n + 1) *ᵥ column g id) := by
      conv_lhs => rw [exact.column_eq hf id]
      rw [Matrix.mulVec_add, Matrix.mulVec_smul, Matrix.mulVec_smul, Matrix.mulVec_mulVec,
        ← pow_succ]
    rw [Finset.sum_range_succ, smul_add, pow_succ (1 - a), mul_smul, add_assoc]
    conv_lhs => rw [ih, hstep, smul_add, smul_comm ((1 - a) ^ n) a]

/-- The equation at one vertex, with the sums written out. -/
theorem IsExact.sum_eq (hf : g.finalized = true) (exact : IsExact a g) (id : VertexId) (n : Nat)
    (s : Fin g.numVertices) :
    ∑ v, (pprAt g (g.idOf v) id * ((1 - a) ^ n * (g.transition ^ n) s v) +
      if id = g.idOf v then a * ∑ k ∈ Finset.range n, (1 - a) ^ k * (g.transition ^ k) s v
      else 0) = pprAt g (g.idOf s) id := by
  have hretained : ∑ v, (if id = g.idOf v then
      a * ∑ k ∈ Finset.range n, (1 - a) ^ k * (g.transition ^ k) s v else 0) =
        (a • ∑ k ∈ Finset.range n, (1 - a) ^ k • (g.transition ^ k *ᵥ indicator g id)) s := by
    simp only [Pi.smul_apply, Finset.sum_apply, smul_eq_mul, Matrix.mulVec, dotProduct,
      Finset.mul_sum, indicator]
    rw [Finset.sum_comm]
    refine Finset.sum_congr rfl fun v _ => ?_
    by_cases h : id = g.idOf v <;> simp [h]
  have hstopped : ∑ v, pprAt g (g.idOf v) id * ((1 - a) ^ n * (g.transition ^ n) s v) =
      ((1 - a) ^ n • (g.transition ^ n *ᵥ column g id)) s := by
    simp only [Pi.smul_apply, smul_eq_mul, Matrix.mulVec, dotProduct, Finset.mul_sum, column]
    exact Finset.sum_congr rfl fun v _ => by ring
  rw [Finset.sum_add_distrib, hretained, hstopped, add_comm]
  exact (congrFun (exact.unfolded hf id n) s).symm

end Unfolding

/-! ### What a source gets -/

section Answer

variable {settings : ComputeSettings ℚ} {sources : Option VertexSet}
  {g : Graph (VertexState ℚ)}

/-- Without a threshold everything that is not negative is sent. -/
theorem worthSending_of_nonneg {settings : CollectSettings ℚ} (hθ : settings.threshold = 0)
    {weight : Option ℚ} (h : 0 ≤ weight.getD 0) : worthSending settings weight = weight := by
  cases weight with
  | none => rfl
  | some w => rw [worthSending_some, hθ, if_neg (not_lt.2 (show 0 ≤ w from h))]

/-- What a vertex sends, as a function on vertices. -/
theorem weightAt_owed {settings : CollectSettings ℚ} (hθ : settings.threshold = 0)
    (hindex : settings.noIndex = false) {flow retained : Option ℚ} (hflow : 0 ≤ flow.getD 0)
    (hretained : 0 ≤ retained.getD 0) (u : VertexId) (ppr : Sparse ℚ) (id : VertexId) :
    ((owed settings u ppr flow retained).map (·.weightAt id)).getD 0 =
      ppr.weightAt id * flow.getD 0 + if id = u then retained.getD 0 else 0 := by
  rw [owed, hindex, if_neg Bool.false_ne_true, worthSending_of_nonneg hθ hflow,
    worthSending_of_nonneg hθ hretained]
  cases flow with
  | none =>
    cases retained with
    | none => simp
    | some r => simp [Sparse.weightAt_singleton, eq_comm]
  | some f =>
    cases retained with
    | none => simp [Collection.worth, Sparse.weightAt_scaled]
    | some r => simp [Collection.worth, Sparse.weightAt_add, Sparse.weightAt_scaled]

variable (hf : g.finalized = true) (exact : IsExact settings.resetProb g)
  (h0 : 0 ≤ settings.resetProb) (h1 : settings.resetProb ≤ 1) (hθ : settings.threshold = 0)
  (hindex : settings.noIndex = false)
include hf exact h0 h1 hθ hindex

/-- **What a seeded source gets is the vector that it had.** -/
theorem weightAt_answer {s : Fin g.numVertices}
    (hs : (settings.flowSettings sources).isSeeded (g.idOf s) = true) (id : VertexId) :
    ((settings.answer sources g (g.idOf s)).bind (·.get? id)).getD 0 = pprAt g (g.idOf s) id := by
  have hstrand : settings.strand sources g (g.idOf s) =
      Strand.idle.rounds (settings.flowSettings sources) g (some (g.idOf s))
        (settings.niters + 1) (settings.niters + 1) := by
    rw [ComputeSettings.strand, seedOf_idOf hs]
  have hshare : (settings.flowSettings sources).resetProb ≤ 1 := h1
  have hnonneg : ∀ k v, 0 ≤ (1 - settings.resetProb) ^ k * (g.transition ^ k) s v := fun k v =>
    mul_nonneg (pow_nonneg (sub_nonneg.2 h1) k) (Graph.transition_pow_nonneg k s v)
  have hparcel : ∀ v : Fin g.numVertices,
      ((settings.parcel sources g (g.idOf s) (g.idOf v)).map (·.weightAt id)).getD 0 =
        pprAt g (g.idOf v) id * ((1 - settings.resetProb) ^ settings.niters *
            (g.transition ^ settings.niters) s v) +
          if id = g.idOf v then settings.resetProb * ∑ k ∈ Finset.range settings.niters,
            (1 - settings.resetProb) ^ k * (g.transition ^ k) s v else 0 := by
    intro v
    obtain ⟨hresidual, hflow⟩ := rounds_eq_series hf hshare hθ s v settings.niters
    obtain ⟨value, hvalue⟩ : ∃ value, g.value? (g.idOf v) = some value :=
      ⟨_, Array.getElem?_eq_getElem (Graph.idOf_lt v)⟩
    rw [ComputeSettings.parcel, hvalue, Option.bind_some, hstrand, weightAt_owed hθ hindex,
      hresidual, hflow, pprAt, hvalue]
    · rfl
    · rw [hflow]
      exact hnonneg settings.niters v
    · rw [hresidual]
      exact mul_nonneg h0 (Finset.sum_nonneg fun k _ => hnonneg k v)
  rw [ComputeSettings.answer, Sparse.weightAt_mergeAllInto, List.map_filterMap, sum_filterMap,
    Graph.sum_ids, Finset.sum_congr rfl fun v _ => hparcel v]
  exact exact.sum_eq hf id settings.niters s

omit hf exact h0 h1 hθ hindex in
/-- A vector that is replaced by the same function stays the same function. -/
theorem weightAt_settled {old : Sparse ℚ} {arrived : Option (Sparse ℚ)} {id : VertexId}
    (h : (arrived.bind (·.get? id)).getD 0 = old.weightAt id) :
    (settled old arrived).weightAt id = old.weightAt id := by
  rw [settled]
  cases arrived with
  | none => rfl
  | some v =>
    rw [Option.filter_some]
    split
    · exact h
    · rfl

end Answer

theorem pprAt_eq (g : Graph (VertexState ℚ)) (v id : VertexId) :
    pprAt g v id = ((g.value? v).map VertexState.ppr).elim 0 (·.weightAt id) := by
  rw [pprAt]
  cases g.value? v <;> rfl

/-- **An exact index is a fixed point of the query**, whatever the sources, the number of rounds,
the number of workers and the order of deliveries. The query succeeds if it can be counted. -/
theorem compute_exact [JsonWeight ℚ] {settings : ComputeSettings ℚ} {g : Graph (VertexState ℚ)}
    (hf : g.finalized = true) (fresh : IsFresh g) (exact : IsExact settings.resetProb g)
    (h0 : 0 ≤ settings.resetProb) (h1 : settings.resetProb ≤ 1) (hθ : settings.threshold = 0)
    (hindex : settings.noIndex = false) (sources : Option VertexSet)
    (schedule : ComputeSchedule) :
    (settings.fits g.numVertices = true →
      ∃ summary, (compute g settings sources schedule).result = .ok summary) ∧
    ∀ v id, pprAt (compute g settings sources schedule).graph v id = pprAt g v id := by
  by_cases fits : settings.fits g.numVertices = true
  · obtain ⟨hresult, hanswers⟩ := answers_compute hf fresh fits
      (fun w _ => Sparse.fromZero w) (.inr Sparse.orderFree_merge) sources schedule
    refine ⟨fun _ => hresult, fun v id => ?_⟩
    rw [pprAt_eq, hanswers.ppr, pprAt]
    cases hv : g.value? v with
    | none => rfl
    | some value =>
      by_cases hs : (settings.flowSettings sources).isSeeded v = true ∧ v.toNat < g.numVertices
      · obtain ⟨hseeded, hlt⟩ := hs
        obtain ⟨s, rfl⟩ := Graph.exists_idOf hlt
        refine weightAt_settled ?_
        rw [weightAt_answer hf exact h0 h1 hθ hindex hseeded, pprAt, hv]
        rfl
      · rw [Option.map_some, ComputeSettings.answer_of_seedOf_eq_none (seedOf_eq_none hs)]
        rfl
  · refine ⟨fun h => absurd h fits, fun v id => ?_⟩
    rw [compute, if_neg fits]

/-- The cycle of two vertices, with the vectors of walks that restart half of the time. -/
def indexedCycle : Graph (VertexState ℚ) :=
  Graph.twoCycle { ppr := VertexMap.ofList [(0, 2 / 3), (1, 1 / 3)] }
    { ppr := VertexMap.ofList [(0, 1 / 3), (1, 2 / 3)] }

theorem isExact_indexedCycle : IsExact (1 / 2) indexedCycle := by
  have hzero : ∀ id, pprAt indexedCycle 0 id =
      (if 0 = id then some (2 / 3) else if 1 = id then some (1 / 3) else none).getD 0 :=
    fun _ => rfl
  have hone : ∀ id, pprAt indexedCycle 1 id =
      (if 0 = id then some (1 / 3) else if 1 = id then some (2 / 3) else none).getD 0 :=
    fun _ => rfl
  intro v hv id
  obtain rfl | rfl : v = 0 ∨ v = 1 := by
    have hv : v.toNat < 2 := hv
    rw [← UInt32.toNat_inj, ← UInt32.toNat_inj]
    simp only [UInt32.toNat_zero, UInt32.toNat_one]
    omega
  · by_cases h0 : id = 0
    · subst h0
      decide +kernel
    · by_cases h1 : id = 1
      · subst h1
        decide +kernel
      · have htargets : indexedCycle.targetsOf 0 = [1] := rfl
        simp [Graph.outDegreeOf, htargets, hzero, hone, h0, Ne.symm h0, Ne.symm h1]
  · by_cases h0 : id = 0
    · subst h0
      decide +kernel
    · by_cases h1 : id = 1
      · subst h1
        decide +kernel
      · have htargets : indexedCycle.targetsOf 1 = [0] := rfl
        simp [Graph.outDegreeOf, htargets, hzero, hone, h1, Ne.symm h0, Ne.symm h1]

/-- Five rounds of two workers. -/
def cycleSettings : ComputeSettings ℚ := ⟨5, 0, 1 / 2, false, 2⟩

theorem compute_exact_cycle :
    pprAt (compute indexedCycle cycleSettings none
      ⟨fun _ => ⟨[1], [], [1, 0]⟩, [1], fun _ => default⟩).graph 0 1 = 1 / 3 :=
  (compute_exact rfl (by simp [IsFresh, indexedCycle, Graph.twoCycle]) isExact_indexedCycle
    (by norm_num [cycleSettings]) (by norm_num [cycleSettings]) rfl rfl none
    ⟨fun _ => ⟨[1], [], [1, 0]⟩, [1], fun _ => default⟩).2 0 1

end Superstep.PageRank
