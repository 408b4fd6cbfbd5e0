import Superstep.Proofs.Engine.Unordered
import Superstep.Proofs.Json.VertexMap
import Superstep.Proofs.PageRank.Decomposition

/-!
# Where a round takes flow

A round of the decomposition takes the flow of a source from a vertex to the far ends of its
out-links, and leaves some of it at the vertex. Which sources get where does not depend on the order
in which several workers deliver, because merged vectors have the entries of all of them, and it
does not depend on the weights, except that some are dropped. So whatever is said here holds for any
weights, any number of workers and any order.

What is not seeded does not flow: its strand stays as it is, also if earlier queries have left some
of it behind.

## Main results

* `exists_source_of_pending`: where pending flow comes from
* `exists_value_of_round`: what becomes of the vectors of a vertex
* `strandOf_of_mayFollow`: the strand of a source that is not seeded
* `parks_program`: what is read of saved flow is that flow
-/

namespace Superstep.PageRank

variable {W : Type} [Weight W]

section Round

variable [JsonWeight W] {settings : FlowSettings W} {t t' : Tableau (VertexState W) (Sparse W)}
  {m : Machine (Sparse W) (VertexState W) (Sparse W) Unit} {r : Nat}

omit [JsonWeight W] in
/-- What arrives at a vertex in round zero is what it seeds, and later it is what is pending. -/
theorem arrivingAt_eq {c : Context} {v : VertexId} (hv : v.toNat < t.graph.numVertices)
    (s : VertexId) :
    arrivingAt settings t c s v = (t.pending v).bind fun payload =>
      if c.round = 0 then if seedOf settings t.graph s = some v then some 1 else none
      else payload.get? s := by
  rw [arrivingAt]
  exact congrArg _ (funext fun payload => get?_arriving settings hv payload)

omit [JsonWeight W] in
/-- Whatever a vertex sends has entries, and only those of what arrived there. -/
theorem arrivingAt_of_sends {c : Context} {u : VertexId} {payload : Sparse W}
    (h : sends settings t c u = some payload) :
    c.isLastRound = false ∧ payload.isEmpty = false ∧
      ∀ s, payload.get? s ≠ none → arrivingAt settings t c s u ≠ none := by
  obtain ⟨hmap, hempty⟩ := Option.filter_eq_some_iff.1 h
  obtain ⟨arrived, hpending, rfl⟩ := Option.map_eq_some_iff.1 hmap
  have hlast : c.isLastRound = false := by
    by_contra hlast
    rw [outflow, if_pos (by simpa using hlast)] at hempty
    exact Bool.false_ne_true hempty
  refine ⟨hlast, by simpa using hempty, fun s hs hnone => hs ?_⟩
  rw [arrivingAt, hpending, Option.bind_some] at hnone
  rw [outflow, if_neg (by simp [hlast]), get?_passed, hnone]
  rfl

variable (hp : m.program = Decomposition.program settings)
include hp

/-- **What is pending has come over an edge.** There is an entry for each source that was at one of
the vertices behind it, and only for those; the last round leaves nothing pending. -/
theorem exists_source_of_pending (hc : ∀ flow, m.carry flow = flow) (h : t.MayFollow m r t')
    {v : VertexId} {payload : Sparse W} (hv : t'.pending v = some payload) :
    ¬ m.maxRounds ≤ r + 1 ∧ payload.isEmpty = false ∧
      ∀ s, payload.get? s ≠ none →
        ∃ u ∈ t.graph.sourcesOf v, arrivingAt settings t (t.context m r) s u ≠ none := by
  obtain ⟨order, hperm, horder⟩ := h.pending v
  rw [sent_eq hp hc, Graph.arrivals_broadcast t.finalized] at hperm
  have hsent : ∀ arrival ∈ order, ∃ u ∈ t.graph.sourcesOf v,
      sends settings t (t.context m r) u = some arrival := fun arrival harrival =>
    List.mem_filterMap.1 (hperm.mem_iff.1 harrival)
  have hkeys : ∀ s, payload.get? s ≠ none ↔ ∃ arrival ∈ order, arrival.get? s ≠ none := by
    intro s
    have hmerged : (t'.pending v).bind (·.get? s) ≠ none ↔
        none ≠ none ∨ ∃ arrival ∈ order, arrival.get? s ≠ none :=
      horder ▸ Sparse.get?_mergeAllInto_ne_none
    rw [hv] at hmerged
    simpa using hmerged
  obtain ⟨first, hfirst⟩ : ∃ arrival, arrival ∈ order := by
    refine List.exists_mem_of_ne_nil order ?_
    rintro rfl
    rw [hv] at horder
    cases horder
  obtain ⟨u, -, hu⟩ := hsent first hfirst
  obtain ⟨hlast, hfirst', -⟩ := arrivingAt_of_sends hu
  refine ⟨of_decide_eq_false hlast, ?_, fun s hs => ?_⟩
  · by_contra hempty
    rw [Bool.not_eq_false, VertexMap.isEmpty_iff] at hempty
    refine Bool.false_ne_true (hfirst'.symm.trans (VertexMap.isEmpty_iff.2 fun s => ?_))
    by_contra hs
    exact (hkeys s).2 ⟨first, hfirst, hs⟩ (hempty s)
  · obtain ⟨arrival, harrival, hs⟩ := (hkeys s).1 hs
    obtain ⟨u, hmem, hu⟩ := hsent arrival harrival
    exact ⟨u, hmem, (arrivingAt_of_sends hu).2.2 s hs⟩

/-- What becomes of the vectors of a vertex. -/
theorem exists_value_of_round {v : VertexId} {value' : VertexState W}
    (h : (t.round m r).graph.value? v = some value') :
    ∃ value, t.graph.value? v = some value ∧ value'.ppr = value.ppr ∧ ∀ s,
      value'.residual.get? s =
          (if m.maxRounds ≤ r + 1 then value.residual.get? s
            else Sparse.added (value.residual.get? s)
              ((arrivingAt settings t (t.context m r) s v).map (settings.resetProb * ·))) ∧
        value'.flow.get? s =
          if m.maxRounds ≤ r + 1 then Sparse.added (value.flow.get? s)
              (arrivingAt settings t (t.context m r) s v)
            else value.flow.get? s := by
  have hlt : v.toNat < t.graph.numVertices := by
    have hlt := Graph.lt_of_value? h
    rwa [Tableau.graph_round, Graph.numVertices_overwrite] at hlt
  obtain ⟨v, hn, rfl⟩ := Graph.exists_vertex t.finalized hlt
  rw [t.value?_round m r hn] at h
  obtain rfl := Option.some.inj h
  exact ⟨v.value, Graph.value?_eq_value hn, ppr_valueBehind hp v, get?_valueBehind hp v⟩

/-! ### What is not seeded -/

/-- **The strand of a source that is not seeded stays as it is.** -/
theorem strandOf_of_mayFollow (hc : ∀ flow, m.carry flow = flow) (h : t.MayFollow m r t')
    {s : VertexId} (hs : seedOf settings t.graph s = none)
    (idle : ∀ v, (strandOf s t).pending v = none) : strandOf s t' = strandOf s t := by
  have hnone : ∀ v, v.toNat < t.graph.numVertices →
      arrivingAt settings t (t.context m r) s v = none := by
    intro v hv
    have hidle := idle v
    rw [pending_strandOf] at hidle
    rw [arrivingAt_eq hv, hs]
    cases hpending : t.pending v with
    | none => rfl
    | some payload =>
      rw [hpending, Option.bind_some] at hidle
      rw [Option.bind_some, hidle]
      simp
  have hvalue : ∀ v, (strandOf s t').residual v = (strandOf s t).residual v ∧
      (strandOf s t').flow v = (strandOf s t).flow v := by
    intro v
    simp only [residual_strandOf, flow_strandOf, h.graph]
    cases hv : (t.round m r).graph.value? v with
    | none =>
      have hle : t.graph.numVertices ≤ v.toNat := by
        have := Array.getElem?_eq_none_iff.1 hv
        rwa [Tableau.graph_round, ← Graph.numVertices, Graph.numVertices_overwrite] at this
      rw [Graph.value?_of_le hle]
      exact ⟨rfl, rfl⟩
    | some value' =>
      obtain ⟨value, hvalue, -, hentries⟩ := exists_value_of_round hp hv
      obtain ⟨hresidual, hflow⟩ := hentries s
      rw [hnone v (Graph.lt_of_value? hvalue)] at hresidual hflow
      rw [hvalue, Option.bind_some, Option.bind_some, Option.bind_some, Option.bind_some,
        hresidual, hflow]
      constructor <;> split <;> rfl
  refine Strand.ext (funext fun v => ?_) (funext fun v => (hvalue v).1)
    (funext fun v => (hvalue v).2)
  rw [idle v, pending_strandOf]
  cases hv : t'.pending v with
  | none => rfl
  | some payload =>
    by_contra hs'
    obtain ⟨u, hu, harriving⟩ := (exists_source_of_pending hp hc h hv).2.2 s hs'
    exact harriving (hnone u (Graph.lt_of_mem_sourcesOf hu))

end Round

/-! ### The engine -/

/-- **What is read of saved flow is that flow.** Flow that cannot be read is not sent at all. -/
theorem parks_program (settings : FlowSettings Binary64) (prototype : Sparse Binary64) :
    (Decomposition.program settings).Parks prototype where
  save flow := ⟨_, rfl⟩
  load flow bytes restored hsave hload := by
    have hread : Sparse.ofText (Text.encode flow.toJson.render) = .ok restored := by
      obtain rfl := Except.ok.inj hsave
      exact mapError_eq_ok.1 hload
    obtain rfl : flow = restored :=
      Except.ok.inj ((Sparse.ofText_toJson (Sparse.allFinite_of_ofText hread)).symm.trans hread)
    intro c v
    rfl

end Superstep.PageRank
