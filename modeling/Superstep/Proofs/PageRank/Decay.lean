import Superstep.Proofs.Engine.Driver
import Superstep.Proofs.PageRank.Pruning
import Superstep.Proofs.PageRank.Spread

/-!
# Flow dies out

Every round retains the share `a` of what arrives, so behind `r` rounds there is at most
`(1 - a) ^ r` of a source on its way, over all vertices together; how it was split over out-edges,
and what was merged again, makes no difference. Under a threshold this comes to an end. Once
`(1 - a) ^ r` does not exceed the threshold, no vertex has enough left to pass any of it on, and
then nothing is sent, on any graph and under any cap.

What decides is that the bound holds for what is passed on and not only for what arrives, since a
share of at most `1 - a` is passed on. So the round that would exceed the bound sends nothing.

## Main results

* `level_le_pow`: what arrives in a round
* `pending_rounds_eq_none`: a strand that has died out
* `Launched.isQuiet_rounds`: a decomposition that has
-/

namespace Superstep.PageRank

section Strand

variable {D : Type} {g : Graph D} {settings : FlowSettings ℚ}

/-- An out-edge carries on no more than a vertex does not retain. -/
theorem passedShare_le (h1 : settings.resetProb ≤ 1) (outDegree : Nat) :
    Decomposition.passedShare settings outDegree ≤ 1 - settings.resetProb := by
  have hrest : 0 ≤ 1 - settings.resetProb := sub_nonneg.2 h1
  cases outDegree with
  | zero => exact (mul_one _).le
  | succ n =>
    rw [passedShare_of_pos n.succ_pos]
    exact mul_le_of_le_one_right hrest
      (div_le_one_of_le₀ (Nat.one_le_cast.2 n.succ_pos) (Nat.cast_nonneg _))

variable (hf : g.finalized = true) (h1 : settings.resetProb ≤ 1) (hθ : 0 ≤ settings.threshold)
  {cap : Nat}
include hf h1 hθ

/-- What arrives at a vertex in a round is at most what is left of a unit. -/
theorem level_le_pow (s v : Fin g.numVertices) {r : Nat} (hr : r < cap) :
    level settings g (g.idOf s) cap r (g.idOf v) ≤ (1 - settings.resetProb) ^ r :=
  (level_le_walk hf h1 hθ s v hr).trans (mul_le_of_le_one_right
    (pow_nonneg (sub_nonneg.2 h1) r) (Graph.transition_pow_le_one hf r s v))

/-- **A strand has died out** once what is left of a unit does not exceed the threshold. -/
theorem pending_rounds_eq_none (s : Fin g.numVertices) {r : Nat} (hr : r + 1 < cap)
    (small : (1 - settings.resetProb) ^ (r + 1) ≤ settings.threshold) (v : VertexId) :
    (Strand.idle.rounds settings g (some (g.idOf s)) cap (r + 1)).pending v = none := by
  have hpassed : ∀ u ∈ g.sourcesOf v, (Strand.idle.rounds settings g (some (g.idOf s)) cap r).passed
      settings g (some (g.idOf s)) r u = none := by
    intro u hu
    obtain ⟨u, rfl⟩ := Graph.exists_idOf (Graph.lt_of_mem_sourcesOf hu)
    have hlevel := level_le_pow hf h1 hθ s u (Nat.lt_of_succ_lt hr)
    rw [level] at hlevel
    rw [Strand.passed]
    cases harriving : (Strand.idle.rounds settings g (some (g.idOf s)) cap r).arriving
        (some (g.idOf s)) r (g.idOf u) with
    | none => rfl
    | some w =>
      rw [harriving, Option.getD_some] at hlevel
      have hw : Decomposition.passedShare settings (g.outDegreeOf (g.idOf u)) * w ≤
          settings.threshold :=
        calc Decomposition.passedShare settings (g.outDegreeOf (g.idOf u)) * w
            ≤ Decomposition.passedShare settings (g.outDegreeOf (g.idOf u)) *
                (1 - settings.resetProb) ^ r :=
              mul_le_mul_of_nonneg_left hlevel (passedShare_nonneg h1 _)
          _ ≤ (1 - settings.resetProb) * (1 - settings.resetProb) ^ r :=
              mul_le_mul_of_nonneg_right (passedShare_le h1 _) (pow_nonneg (sub_nonneg.2 h1) r)
          _ = (1 - settings.resetProb) ^ (r + 1) := (pow_succ' ..).symm
          _ ≤ settings.threshold := small
      simp [hw]
  rw [pending_rounds_succ hr, List.filterMap_congr hpassed, List.filterMap_none]
  rfl

end Strand

section Engine

variable [JsonWeight ℚ] {settings : FlowSettings ℚ} {g : Graph (VertexState ℚ)}
  {options : EngineOptions} {e : Engine (Sparse ℚ) (VertexState ℚ) (Sparse ℚ) Unit}

omit [JsonWeight ℚ] in
/-- A round is one of those that may follow. -/
theorem mayFollow_round (t : Tableau (VertexState ℚ) (Sparse ℚ))
    (m : Machine (Sparse ℚ) (VertexState ℚ) (Sparse ℚ) Unit) (r : Nat) :
    t.MayFollow m r (t.round m r) :=
  ⟨rfl, fun _ => ⟨_, .refl _, rfl⟩⟩

/-- **A decomposition has died out** once what is left of a unit does not exceed the threshold. -/
theorem Launched.isQuiet_rounds (h : Launched settings options e g)
    (h1 : settings.resetProb ≤ 1) (hθ : 0 ≤ settings.threshold) {r : Nat}
    (small : (1 - settings.resetProb) ^ (r + 1) ≤ settings.threshold) :
    ((e.tableau g h.ready.finalized).rounds e.machine 0 (r + 1)).IsQuiet := by
  intro v
  by_contra hv
  obtain ⟨payload, hv⟩ := Option.ne_none_iff_exists'.1 hv
  obtain ⟨hlast, hnonempty, -⟩ :=
    exists_source_of_pending h.program h.carry (mayFollow_round _ _ _) hv
  rw [h.maxRounds, Nat.zero_add] at hlast
  -- what is pending would have an entry, and its strand has died out
  refine Bool.false_ne_true (hnonempty.symm.trans (VertexMap.isEmpty_iff.2 fun s => ?_))
  have hstrand := congrArg (fun σ => σ.pending v)
    (h.strandOf_rounds (fun w _ => Sparse.fromZero w) s (r + 1))
  rw [pending_strandOf, hv, Option.bind_some] at hstrand
  rw [hstrand, seedOf]
  split
  · rename_i hseeded
    obtain ⟨s, rfl⟩ := Graph.exists_idOf hseeded.2
    exact pending_rounds_eq_none h.ready.finalized h1 hθ s (Nat.not_le.1 hlast) small v
  · rw [Strand.rounds_none]
    rfl

/-- **Pruned flow dies out under any cap.** A decomposition of a graph in which nothing has flowed
yet, with a threshold and a share retained that are not zero, completes at most as many rounds as it
takes for a unit to shrink to the threshold, and one if it need not shrink at all. The graph may
have cycles and dead ends, and the cap may be as large as it likes.

An engine that keeps states as bytes has to get the flow back from them as it was. -/
theorem pruned_flow_dies_out
    (new : Engine.create (Decomposition.program settings) VertexMap.empty g.numVertices options =
      .ok e)
    (hf : g.finalized = true) (fresh : IsFresh g) (h0 : 0 < settings.resetProb)
    (h1 : settings.resetProb ≤ 1) (hθ : 0 < settings.threshold)
    (restores : options.persist = true → Restores ℚ) (schedules : Nat → Schedule) :
    ∃ N summary, IsLeast {n : ℕ | (1 - settings.resetProb) ^ n ≤ settings.threshold} N ∧
      (e.signalAll.run g schedules).result = .ok summary ∧ summary.rounds ≤ max N 1 := by
  have launched := launched_signalAll new hf fresh (.inr Sparse.orderFree_merge) restores
  obtain ⟨n, hn⟩ := exists_pow_lt_of_lt_one hθ (sub_lt_self 1 h0)
  have shrinks : ∃ n : ℕ, (1 - settings.resetProb) ^ n ≤ settings.threshold := ⟨n, hn.le⟩
  classical
  obtain ⟨N, hN⟩ : ∃ N, IsLeast {n : ℕ | (1 - settings.resetProb) ^ n ≤ settings.threshold} N :=
    ⟨Nat.find shrinks, Nat.find_spec shrinks, fun n hn => Nat.find_min' shrinks hn⟩
  have hresult : (e.signalAll.run g schedules).result = .ok _ :=
    congrArg (Except.map _) (launched.run_eq_rounds schedules).result
  refine ⟨N, _, hN, hresult, ?_⟩
  obtain ⟨r, hr⟩ := Nat.exists_eq_add_of_le' (Nat.le_max_right N 1)
  have small : (1 - settings.resetProb) ^ (r + 1) ≤ settings.threshold :=
    (pow_le_pow_of_le_one (sub_nonneg.2 h1) (sub_le_self 1 h0.le)
      (hr ▸ Nat.le_max_left N 1)).trans hN.1
  have hquiet := launched.isQuiet_rounds h1 hθ.le small
  rw [← launched.round] at hquiet
  have hle : (e.signalAll.run g schedules).engine.round ≤ e.signalAll.round + (r + 1) :=
    launched.ready.round_runRounds_le hquiet
  rw [Engine.rounds_of_run hresult, hr]
  omega

end Engine

/-- Half of what arrives is retained, and an eighth is too little to be passed on. -/
def fadingSettings : FlowSettings ℚ := ⟨1 / 2, 1 / 8, none⟩

/-- Flow that goes round in a cycle is gone behind three rounds of a million. -/
theorem pruned_flow_dies_out_cycle :
    ∃ summary, ((Engine.ofProgram (Decomposition.program fadingSettings) VertexMap.empty 2
      ⟨1000000, 2, false⟩).signalAll.run (Graph.twoCycle {} {}) fun _ => ⟨[1], [], [1]⟩).result =
        .ok summary ∧ summary.rounds ≤ 3 := by
  have new : Engine.create (Decomposition.program fadingSettings) VertexMap.empty
      (Graph.twoCycle (D := VertexState ℚ) {} {}).numVertices ⟨1000000, 2, false⟩ = .ok _ := rfl
  obtain ⟨N, summary, hleast, hresult, hle⟩ := pruned_flow_dies_out new rfl
    (by simp [IsFresh, Graph.twoCycle]) (by norm_num [fadingSettings])
    (by norm_num [fadingSettings]) (by norm_num [fadingSettings]) (fun h => absurd h (by decide))
    fun _ => ⟨[1], [], [1]⟩
  have three : N ≤ 3 := hleast.2 (by norm_num [fadingSettings])
  exact ⟨summary, hresult, hle.trans (max_le three (by decide))⟩

end Superstep.PageRank
