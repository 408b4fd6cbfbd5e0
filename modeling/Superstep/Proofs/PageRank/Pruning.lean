import Superstep.Proofs.PageRank.RandomWalk

/-!
# What a threshold removes

A weight that does not exceed the threshold is not passed on. So two decompositions of one graph
that differ in their thresholds take different vertices through different rounds, and one of them
may be over long before the other. Strand by strand they are easy to compare: what arrives in a
round is a sum of what was passed on, and passing on is monotone in the weight and antitone in the
threshold, as long as nothing is negative. That is all the induction on rounds needs.

The decomposition without a threshold is the random walk, so it bounds all others. Weight that
is not passed on is lost, as it is at a dead end, and so a source accounts for one unit at most.

## Main results

* `level_le_level`: a higher threshold lets less arrive, in every round
* `level_le_walk`: what arrives is at most what walks bring
* `Decomposed.le_of_threshold_le`: a higher threshold leaves less behind
* `Decomposed.sum_le_one`: a source accounts for one unit at most
-/

namespace Superstep

namespace Graph

variable {D : Type} {g : Graph D}

theorem sum_transition_pow_le (hf : g.finalized = true) (k : Nat) (u : Fin g.numVertices) :
    ∑ v, (g.transition ^ k) u v ≤ 1 := by
  induction k with
  | zero => simp [Matrix.one_apply]
  | succ k ih =>
    calc ∑ v, (g.transition ^ (k + 1)) u v
        = ∑ w, (g.transition ^ k) u w * ∑ v, g.transition w v := by
          simp only [pow_succ, Matrix.mul_apply, Finset.mul_sum]
          exact Finset.sum_comm
      _ ≤ ∑ w, (g.transition ^ k) u w := Finset.sum_le_sum fun w _ =>
          mul_le_of_le_one_right (transition_pow_nonneg k u w) (sum_transition_le hf w)
      _ ≤ 1 := ih

theorem transition_pow_le_one (hf : g.finalized = true) (k : Nat) (u v : Fin g.numVertices) :
    (g.transition ^ k) u v ≤ 1 :=
  (Finset.single_le_sum (fun w _ => transition_pow_nonneg k u w) (Finset.mem_univ v)).trans
    (sum_transition_pow_le hf k u)

end Graph

namespace PageRank

/-! ### Passing on -/

theorem pruned_nonneg {threshold : ℚ} (h : 0 ≤ threshold) (w : ℚ) : 0 ≤ pruned threshold w := by
  rw [pruned]
  split
  · rename_i hw
    exact h.trans hw.le
  · exact le_refl 0

/-- Less is passed on of a smaller weight, and under a higher threshold. -/
theorem pruned_le_pruned {threshold threshold' w w' : ℚ} (h : 0 ≤ threshold)
    (hthreshold : threshold ≤ threshold') (hw : w' ≤ w) :
    pruned threshold' w' ≤ pruned threshold w := by
  by_cases hpassed : threshold' < w'
  · have hlt : threshold < w := (hthreshold.trans_lt hpassed).trans_le hw
    rw [pruned, pruned, if_pos hpassed, if_pos hlt]
    exact hw
  · rw [pruned, if_neg hpassed]
    exact pruned_nonneg h w

section Level

variable {D : Type} {g : Graph D} {settings settings' : FlowSettings ℚ} {cap : Nat}

theorem level_nonneg (hθ : 0 ≤ settings.threshold) (s : VertexId) {r : Nat} (hr : r < cap)
    (v : VertexId) : 0 ≤ level settings g s cap r v := by
  cases r with
  | zero =>
    rw [level_zero]
    split <;> simp
  | succ r =>
    rw [level_succ hr]
    refine List.sum_nonneg fun w hw => ?_
    obtain ⟨u, -, rfl⟩ := List.mem_map.1 hw
    exact pruned_nonneg hθ _

/-- **A higher threshold lets less arrive**, in every round. -/
theorem level_le_level (hreset : settings'.resetProb = settings.resetProb)
    (h1 : settings.resetProb ≤ 1) (hθ : 0 ≤ settings.threshold)
    (hle : settings.threshold ≤ settings'.threshold) (s : VertexId) {r : Nat} (hr : r < cap)
    (v : VertexId) : level settings' g s cap r v ≤ level settings g s cap r v := by
  have hshare : Decomposition.passedShare settings' = Decomposition.passedShare settings := by
    funext outDegree
    simp only [Decomposition.passedShare, hreset]
  induction r generalizing v with
  | zero => rw [level_zero, level_zero]
  | succ r ih =>
    rw [level_succ hr, level_succ hr, hshare]
    refine List.sum_le_sum fun u _ => pruned_le_pruned hθ hle ?_
    exact mul_le_mul_of_nonneg_left (ih (Nat.lt_of_succ_lt hr) u) (passedShare_nonneg h1 _)

/-- **What arrives is at most what walks bring.** -/
theorem level_le_walk (hf : g.finalized = true) (h1 : settings.resetProb ≤ 1)
    (hθ : 0 ≤ settings.threshold) (s v : Fin g.numVertices) {r : Nat} (hr : r < cap) :
    level settings g (g.idOf s) cap r (g.idOf v) ≤
      (1 - settings.resetProb) ^ r * (g.transition ^ r) s v := by
  have hfree : ∀ free : FlowSettings ℚ, free.resetProb = settings.resetProb →
      free.threshold = 0 → level settings g (g.idOf s) cap r (g.idOf v) ≤
        (1 - settings.resetProb) ^ r * (g.transition ^ r) s v := by
    intro free hreset hzero
    rw [← hreset] at h1 ⊢
    rw [← level_eq hf h1 hzero s v hr]
    exact level_le_level hreset.symm h1 hzero.ge (hzero ▸ hθ) _ hr _
  exact hfree { settings with threshold := 0 } rfl rfl

end Level

/-! ### What is left behind -/

section Decomposed

variable {settings settings' : FlowSettings ℚ} {cap : Nat} {g g₁ g₂ : Graph (VertexState ℚ)}

/-- What a source leaves behind that takes part in at least one round. -/
theorem Decomposed.eq_levels {r : Nat} (h : Decomposed settings (r + 1) g g₁) {s : VertexId}
    (hs : seedOf settings g s = some s) (v : VertexId) :
    residualAt g₁ v s =
        settings.resetProb * ∑ k ∈ Finset.range r, level settings g s (r + 1) k v ∧
      flowAt g₁ v s = level settings g s (r + 1) r v := by
  rw [residualAt, flowAt, h.residual, h.flow, hs]
  exact rounds_last s v r

/-- No other source leaves anything behind. -/
theorem Decomposed.eq_zero (h : Decomposed settings cap g g₁) {s : VertexId}
    (idle : cap = 0 ∨ seedOf settings g s = none) (v : VertexId) :
    residualAt g₁ v s = 0 ∧ flowAt g₁ v s = 0 := by
  rw [residualAt, flowAt, h.residual, h.flow]
  rcases idle with rfl | hs
  · exact ⟨rfl, rfl⟩
  · rw [hs, Strand.rounds_none]
    exact ⟨rfl, rfl⟩

/-- A source takes part or it does not. -/
theorem idle_or_seeded (settings : FlowSettings ℚ) (g : Graph (VertexState ℚ)) (cap : Nat)
    (s : VertexId) : (cap = 0 ∨ seedOf settings g s = none) ∨
      ∃ r, cap = r + 1 ∧ seedOf settings g s = some s := by
  cases cap with
  | zero => exact .inl (.inl rfl)
  | succ r =>
    rw [seedOf]
    split
    · exact .inr ⟨r, rfl, rfl⟩
    · exact .inl (.inr rfl)

/-- **A higher threshold leaves less behind**, and nothing negative. -/
theorem Decomposed.le_of_threshold_le (h : Decomposed settings cap g g₁)
    (h' : Decomposed settings' cap g g₂) (hreset : settings'.resetProb = settings.resetProb)
    (hsources : settings'.sources = settings.sources) (h0 : 0 ≤ settings.resetProb)
    (h1 : settings.resetProb ≤ 1) (hθ : 0 ≤ settings.threshold)
    (hle : settings.threshold ≤ settings'.threshold) (v s : VertexId) :
    (0 ≤ residualAt g₂ v s ∧ residualAt g₂ v s ≤ residualAt g₁ v s) ∧
      0 ≤ flowAt g₂ v s ∧ flowAt g₂ v s ≤ flowAt g₁ v s := by
  have hseed : seedOf settings' g s = seedOf settings g s := by
    rw [seedOf, seedOf, FlowSettings.isSeeded, FlowSettings.isSeeded, hsources]
  rcases idle_or_seeded settings g cap s with idle | ⟨r, rfl, hs⟩
  · rw [(h.eq_zero idle v).1, (h.eq_zero idle v).2, (h'.eq_zero (hseed ▸ idle) v).1,
      (h'.eq_zero (hseed ▸ idle) v).2]
    simp
  · obtain ⟨hresidual, hflow⟩ := h.eq_levels hs v
    obtain ⟨hresidual', hflow'⟩ := h'.eq_levels (hseed.trans hs) v
    have nonneg : ∀ k < r + 1, 0 ≤ level settings' g s (r + 1) k v := fun k hk =>
      level_nonneg (hθ.trans hle) s hk v
    have less : ∀ k < r + 1, level settings' g s (r + 1) k v ≤ level settings g s (r + 1) k v :=
      fun k hk => level_le_level hreset h1 hθ hle s hk v
    have earlier : ∀ k ∈ Finset.range r, k < r + 1 := fun k hk =>
      Nat.lt_succ_of_lt (Finset.mem_range.1 hk)
    rw [hresidual, hflow, hresidual', hflow', hreset]
    refine ⟨⟨?_, ?_⟩, nonneg r r.lt_succ_self, less r r.lt_succ_self⟩
    · exact mul_nonneg h0 (Finset.sum_nonneg fun k hk => nonneg k (earlier k hk))
    · exact mul_le_mul_of_nonneg_left (Finset.sum_le_sum fun k hk => less k (earlier k hk)) h0

/-- Behind the truncated series of a walk there is one unit at most. -/
theorem series_total_le {D : Type} {g : Graph D} (hf : g.finalized = true) {a : ℚ} (h0 : 0 ≤ a)
    (h1 : a ≤ 1) (n : Nat) (s : Fin g.numVertices) :
    ∑ v, (a * ∑ k ∈ Finset.range n, (1 - a) ^ k * (g.transition ^ k) s v +
      (1 - a) ^ n * (g.transition ^ n) s v) ≤ 1 := by
  have hrow : ∀ k, (1 - a) ^ k * ∑ v, (g.transition ^ k) s v ≤ (1 - a) ^ k := fun k =>
    mul_le_of_le_one_right (pow_nonneg (sub_nonneg.2 h1) k) (Graph.sum_transition_pow_le hf k s)
  calc ∑ v, (a * ∑ k ∈ Finset.range n, (1 - a) ^ k * (g.transition ^ k) s v +
        (1 - a) ^ n * (g.transition ^ n) s v)
      = a * ∑ k ∈ Finset.range n, (1 - a) ^ k * ∑ v, (g.transition ^ k) s v +
          (1 - a) ^ n * ∑ v, (g.transition ^ n) s v := sum_series ..
    _ ≤ a * ∑ k ∈ Finset.range n, (1 - a) ^ k + (1 - a) ^ n :=
        add_le_add (mul_le_mul_of_nonneg_left (Finset.sum_le_sum fun k _ => hrow k) h0) (hrow n)
    _ = 1 := geom_total a n

/-- **A source accounts for one unit at most**, over all vertices. -/
theorem Decomposed.sum_le_one (h : Decomposed settings cap g g₁) (hf : g.finalized = true)
    (h0 : 0 ≤ settings.resetProb) (h1 : settings.resetProb ≤ 1) (hθ : 0 ≤ settings.threshold)
    (s : VertexId) : ∑ v, (residualAt g₁ (g.idOf v) s + flowAt g₁ (g.idOf v) s) ≤ 1 := by
  rcases idle_or_seeded settings g cap s with idle | ⟨r, rfl, hs⟩
  · simp [h.eq_zero idle]
  · have hlt : s.toNat < g.numVertices := by
      rw [seedOf] at hs
      split at hs
      · rename_i hseeded
        exact hseeded.2
      · cases hs
    obtain ⟨s, rfl⟩ := Graph.exists_idOf hlt
    refine le_trans (Finset.sum_le_sum fun v _ => ?_) (series_total_le hf h0 h1 r s)
    rw [(h.eq_levels hs _).1, (h.eq_levels hs _).2]
    refine add_le_add (mul_le_mul_of_nonneg_left (Finset.sum_le_sum fun k hk => ?_) h0) ?_
    · exact level_le_walk hf h1 hθ s v (Nat.lt_succ_of_lt (Finset.mem_range.1 hk))
    · exact level_le_walk hf h1 hθ s v r.lt_succ_self

end Decomposed

/-! ### The engine -/

/-- **A higher threshold only removes weight.** Two decompositions of a graph in which nothing has
flowed yet, with the same sources, the same cap and the same share retained, leave at every vertex
of every source no more under the higher threshold than under the lower one, and never less than
nothing; each of them accounts for one unit of every source at most. The numbers of workers and
the orders of deliveries may differ.

An engine that keeps states as bytes has to get the flow back from them as it was. -/
theorem raising_threshold_removes_weight [JsonWeight ℚ] {a lower higher : ℚ}
    {sources : Option VertexSet} {g : Graph (VertexState ℚ)} {options options' : EngineOptions}
    {e e' : Engine (Sparse ℚ) (VertexState ℚ) (Sparse ℚ) Unit}
    (new : Engine.create (Decomposition.program ⟨a, lower, sources⟩) VertexMap.empty g.numVertices
      options = .ok e)
    (new' : Engine.create (Decomposition.program ⟨a, higher, sources⟩) VertexMap.empty
      g.numVertices options' = .ok e')
    (cap : options'.maxRounds = options.maxRounds) (hf : g.finalized = true) (fresh : IsFresh g)
    (h0 : 0 ≤ a) (h1 : a ≤ 1) (hlower : 0 ≤ lower) (hle : lower ≤ higher)
    (restores : options.persist = true → Restores ℚ)
    (restores' : options'.persist = true → Restores ℚ) (schedules schedules' : Nat → Schedule) :
    let done := e.signalAll.run g schedules
    let done' := e'.signalAll.run g schedules'
    (∃ summary, done.result = .ok summary) ∧ (∃ summary, done'.result = .ok summary) ∧
    (∀ v s, (0 ≤ residualAt done'.graph v s ∧
        residualAt done'.graph v s ≤ residualAt done.graph v s) ∧
      0 ≤ flowAt done'.graph v s ∧ flowAt done'.graph v s ≤ flowAt done.graph v s) ∧
    ∀ s, ∑ v, (residualAt done.graph (g.idOf v) s + flowAt done.graph (g.idOf v) s) ≤ 1 ∧
      ∑ v, (residualAt done'.graph (g.idOf v) s + flowAt done'.graph (g.idOf v) s) ≤ 1 := by
  intro done done'
  obtain ⟨hresult, hdone, -⟩ := decomposed_of_create new hf fresh
    (fun w _ => Sparse.fromZero w) (.inr Sparse.orderFree_merge) restores schedules
  obtain ⟨hresult', hdone', -⟩ := decomposed_of_create new' hf fresh
    (fun w _ => Sparse.fromZero w) (.inr Sparse.orderFree_merge) restores' schedules'
  rw [cap] at hdone'
  refine ⟨hresult, hresult', fun v s => ?_, fun s => ⟨?_, ?_⟩⟩
  · exact hdone.le_of_threshold_le hdone' rfl rfl h0 h1 hlower hle v s
  · exact hdone.sum_le_one hf h0 h1 hlower s
  · exact hdone'.sum_le_one hf h0 h1 (hlower.trans hle) s

/-- Half of what arrives is retained, and a third is too little to be passed on. -/
def sparingSettings : FlowSettings ℚ := ⟨1 / 2, 1 / 3, none⟩

/-- Three rounds without a threshold, and with one, under another number of workers. -/
theorem raising_threshold_removes_weight_cycle :
    let sparingRun := (Engine.ofProgram (Decomposition.program sparingSettings) VertexMap.empty 2
      ⟨3, 1, false⟩).signalAll.run (Graph.twoCycle {} {}) fun _ => default
    flowAt sparingRun.graph 0 0 ≤ flowAt cycleRun.graph 0 0 ∧
      residualAt sparingRun.graph 1 0 ≤ residualAt cycleRun.graph 1 0 ∧
      ∑ v : Fin 2, (residualAt cycleRun.graph (UInt32.ofNat v) 0 +
        flowAt cycleRun.graph (UInt32.ofNat v) 0) ≤ 1 := by
  intro sparingRun
  have new : Engine.create (Decomposition.program evenSettings) VertexMap.empty
      (Graph.twoCycle (D := VertexState ℚ) {} {}).numVertices ⟨3, 2, false⟩ = .ok _ := rfl
  have new' : Engine.create (Decomposition.program sparingSettings) VertexMap.empty
      (Graph.twoCycle (D := VertexState ℚ) {} {}).numVertices ⟨3, 1, false⟩ = .ok _ := rfl
  obtain ⟨-, -, less, total⟩ := raising_threshold_removes_weight new new' rfl rfl
    (by simp [IsFresh, Graph.twoCycle]) (by norm_num) (by norm_num) (le_refl 0) (by norm_num)
    (fun h => absurd h (by decide)) (fun h => absurd h (by decide)) (fun _ => ⟨[1, 0], [], [1]⟩)
    fun _ => default
  exact ⟨(less 0 0).2.2, (less 1 0).1.2, (total 0).1⟩

end PageRank

end Superstep
