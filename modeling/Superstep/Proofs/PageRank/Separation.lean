import Superstep.Proofs.Binary64.Exact
import Superstep.Proofs.PageRank.Query

/-!
# Sources of one query

A query sees its sources in one place only, where a vertex is seeded. So the strand of a source is
the same in all queries that seed it, and with it what the source gets: the parcels are made of the
strand and of the vectors that were there before the query. Two queries on the same graph can differ
at a source only if one of them seeds it and the other does not.

On words all of this needs a threshold that is not negative. What is passed on is then positive, and
adding it to zero does not change it. With a negative threshold it may be the negative zero, which
an addition to zero would turn into the positive one.

## Main results

* `Answers.congr`: two queries that agree on one source
* `Answers.of_not_seeded`: what a query does to a vertex that is no source of it
-/

namespace Superstep.PageRank

variable {W : Type} [Weight W]

/-- The rounds of a strand ask its settings for two numbers, and not for sources. -/
theorem Strand.rounds_congr {D : Type} {settings settings' : FlowSettings W}
    (hreset : settings.resetProb = settings'.resetProb)
    (hthreshold : settings.threshold = settings'.threshold) (g : Graph D)
    (seed : Option VertexId) (cap : Nat) (σ : Strand W) (k : Nat) :
    σ.rounds settings g seed cap k = σ.rounds settings' g seed cap k := by
  induction k with
  | zero => rfl
  | succ k ih => rw [rounds, rounds, ih, next_congr rfl hreset hthreshold]

/-- Two graphs agree on the vector of a source and on the flow that it left. -/
structure AgreeOn (s : VertexId) (g g' : Graph (VertexState W)) : Prop where
  ppr : (g.value? s).map VertexState.ppr = (g'.value? s).map VertexState.ppr
  flow : ∀ v, (g.value? v).bind (·.flow.get? s) = (g'.value? v).bind (·.flow.get? s)

section Agreeing

variable {settings : ComputeSettings W} {sources sources' : Option VertexSet}
  {g g₁ g₂ : Graph (VertexState W)} {s : VertexId}
  (h : (settings.flowSettings sources).isSeeded s = (settings.flowSettings sources').isSeeded s)
include h

theorem ComputeSettings.strand_congr :
    settings.strand sources g s = settings.strand sources' g s := by
  have hseed : seedOf (settings.flowSettings sources) g s =
      seedOf (settings.flowSettings sources') g s := by
    rw [seedOf, seedOf, h]
  rw [strand, strand, hseed]
  refine Strand.rounds_congr ?_ ?_ _ _ _ _ _ <;> rfl

theorem ComputeSettings.answer_congr :
    settings.answer sources g s = settings.answer sources' g s := by
  have hparcel : settings.parcel sources g s = settings.parcel sources' g s := by
    funext u
    rw [parcel, parcel, strand_congr h]
  rw [answer, answer, hparcel]

/-- **Queries that agree on a source agree on all that it gets and leaves.** -/
theorem Answers.congr (h₁ : Answers settings sources g g₁) (h₂ : Answers settings sources' g g₂) :
    AgreeOn s g₁ g₂ where
  ppr := by rw [h₁.ppr, h₂.ppr, ComputeSettings.answer_congr h]
  flow v := by rw [h₁.flow, h₂.flow, ComputeSettings.strand_congr h]

end Agreeing

/-- A vertex that is no source keeps its vector, and no flow is its own. -/
theorem Answers.of_not_seeded {settings : ComputeSettings W} {sources : Option VertexSet}
    {g g' : Graph (VertexState W)} {s : VertexId} (h : Answers settings sources g g')
    (hs : ¬ (settings.flowSettings sources).isSeeded s = true) :
    (g'.value? s).map VertexState.ppr = (g.value? s).map VertexState.ppr ∧
      ∀ v, (g'.value? v).bind (·.flow.get? s) = none := by
  have hseed : seedOf (settings.flowSettings sources) g s = none :=
    seedOf_eq_none fun seeded => hs seeded.1
  refine ⟨?_, fun v => ?_⟩
  · rw [h.ppr, ComputeSettings.answer_of_seedOf_eq_none hseed]
    rfl
  · rw [h.flow, ComputeSettings.strand_of_seedOf_eq_none hseed]
    rfl

omit [Weight W] in
theorem isSeeded_singleton (settings : ComputeSettings W) (s : VertexId) :
    (settings.flowSettings (some (VertexMap.singleton s ()))).isSeeded s = true := by
  simp [ComputeSettings.flowSettings, FlowSettings.isSeeded, VertexMap.contains,
    VertexMap.get?_singleton]

/-! ### Queries on words -/

/-- What lies above a threshold that is not negative is not changed by an addition to zero. -/
theorem fromZero_of_threshold {settings : ComputeSettings Binary64}
    (hθ : ¬ settings.threshold < 0) (w : Binary64) (h : settings.threshold < w) :
    Sparse.FromZero w := Binary64.zero_add_of_pos (Binary64.lt_of_not_lt_zero hθ h)

omit [Weight W] in
theorem fits_of_workers_le_one {settings : ComputeSettings W} (g : Graph (VertexState W))
    (hrounds : settings.niters + 1 < countLimit) (hworkers : settings.workers ≤ 1) :
    settings.fits g.numVertices = true := by
  have hsize : g.numVertices ≤ UInt32.size := g.size_le
  have hone := ComputeSettings.workers_le_one hworkers
  simp only [ComputeSettings.fits, Tiling.fits, Bool.and_eq_true, decide_eq_true_eq]
  refine ⟨hrounds, ?_⟩
  rw [UInt32.size] at hsize
  rw [countLimit, UInt64.size]
  omega

/-- **The sources of a query do not interfere.** With one worker a source gets the vector, and
leaves the flow at every vertex, that it does as the only source of a query on the same graph; a
vertex that is no source keeps its vector, and no flow is its own. All of these queries succeed. -/
theorem compute_eq_compute_singleton {settings : ComputeSettings Binary64}
    {g : Graph (VertexState Binary64)} (hf : g.finalized = true) (fresh : IsFresh g)
    (hrounds : settings.niters + 1 < countLimit) (hθ : ¬ settings.threshold < 0)
    (hworkers : settings.workers ≤ 1) (sources : Option VertexSet)
    (schedule schedule' : ComputeSchedule) :
    (∃ summary, (compute g settings sources schedule).result = .ok summary) ∧
    (∀ s, (settings.flowSettings sources).isSeeded s = true →
      (∃ summary, (compute g settings (some (VertexMap.singleton s ())) schedule').result =
        .ok summary) ∧
      AgreeOn s (compute g settings sources schedule).graph
        (compute g settings (some (VertexMap.singleton s ())) schedule').graph) ∧
    ∀ s, ¬ (settings.flowSettings sources).isSeeded s = true →
      ((compute g settings sources schedule).graph.value? s).map VertexState.ppr =
        (g.value? s).map VertexState.ppr ∧
      ∀ v, ((compute g settings sources schedule).graph.value? v).bind (·.flow.get? s) = none := by
  have hanswers : ∀ sources schedule,
      (∃ summary, (compute g settings sources schedule).result = .ok summary) ∧
        Answers settings sources g (compute g settings sources schedule).graph :=
    answers_compute hf fresh (fits_of_workers_le_one g hrounds hworkers)
      (fromZero_of_threshold hθ) (.inl hworkers)
  obtain ⟨hresult, hjoint⟩ := hanswers sources schedule
  refine ⟨hresult, fun s hs => ?_, fun s hs => hjoint.of_not_seeded hs⟩
  obtain ⟨halone, hsingle⟩ := hanswers (some (VertexMap.singleton s ())) schedule'
  exact ⟨halone, Answers.congr (hs.trans (isSeeded_singleton settings s).symm) hjoint hsingle⟩

/-- Two vertices that point at each other, with a vector at one of them. -/
def signpost : Graph (VertexState Binary64) :=
  Graph.twoCycle {} { ppr := VertexMap.singleton 0 1 }

/-- Two rounds, with a share of one half that restarts. -/
def signpostSettings : ComputeSettings Binary64 := ⟨2, 0, 1 / (2 : Nat), false, 1⟩

/-- The vertex `7` is a source that the graph does not have. -/
theorem compute_eq_compute_singleton_signpost :
    AgreeOn 0
      (compute signpost signpostSettings (some (VertexSet.ofList [0, 1, 7])) default).graph
      (compute signpost signpostSettings (some (VertexMap.singleton 0 ())) default).graph :=
  ((compute_eq_compute_singleton rfl (by simp [IsFresh, signpost, Graph.twoCycle]) (by decide)
    (by decide) (by decide) (some (VertexSet.ofList [0, 1, 7])) default default).2.1 0
    (by decide)).2

end Superstep.PageRank
