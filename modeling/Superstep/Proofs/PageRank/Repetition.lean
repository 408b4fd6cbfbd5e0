import Superstep.Proofs.PageRank.Safety

/-!
# Queries on a graph that was queried before

A collection clears what was retained, but not the flow that it has sent home. The next query finds
that flow in place and sends it home once more. What arrives replaces a vector that was complete:
a source of an earlier query is left with as much as its leftover flow is worth, and a later query
has changed a vertex that is not among its own sources.

So a query leaves alone what was never a source, and everything else only if it does not use the
index. `outdated` is what it sends to the sources of earlier queries.

## Main definitions

* `Call.isSource`: what starts flow in a call
* `outdated`: what a vertex still sends to a source of an earlier call

## Main results

* `Queryable.flow_queried`: flow stays where it stopped
* `Queryable.ppr_on`: what a call makes of a vertex that is not one of its sources
* `later_query_resends_flow`: a loaded graph behind any calls
-/

namespace Superstep.PageRank

variable {W : Type} [Weight W]

/-- Whether a vertex is among the sources of a call. -/
def Call.isSource (call : Call W) (v : VertexId) : Bool :=
  (call.settings.flowSettings call.sources).isSeeded v

/-- What vertex `u` sends to source `s` for flow that has been there since before the call. -/
def outdated (settings : CollectSettings W) (g : Graph (VertexState W)) (s u : VertexId) :
    Option (Sparse W) :=
  if settings.noIndex then none
  else (g.value? u).bind fun value =>
    (worthSending settings (value.flow.get? s)).map fun weight => value.ppr.scaled weight

/-- The flow of source `s` that stopped at vertex `u`. -/
def stoppedAt (g : Graph (VertexState W)) (s u : VertexId) : Option W :=
  (g.value? u).bind (·.flow.get? s)

/-- The page-rank vector of a vertex. -/
def pprOf (g : Graph (VertexState W)) (v : VertexId) : Option (Sparse W) :=
  (g.value? v).map VertexState.ppr

section Repetition

variable [JsonWeight W] {g gd g' : Graph (VertexState W)} {call : Call W} {s : VertexId}

omit [Weight W] [JsonWeight W] in
theorem seedOf_of_isSource (hs : call.isSource s = false) :
    seedOf (call.settings.flowSettings call.sources) g s = none :=
  seedOf_eq_none fun hseeded => Bool.false_ne_true (hs.symm.trans hseeded.1)

omit [JsonWeight W] in
theorem Collects.stoppedAt {settings : CollectSettings W} (h : Collects settings g g')
    (u : VertexId) : stoppedAt g' s u = stoppedAt g s u := by
  obtain ⟨order, -, hvalue⟩ := h.value u
  rw [PageRank.stoppedAt, PageRank.stoppedAt, hvalue]
  cases g.value? u <;> rfl

/-- **A call leaves the flow of other sources where it is**, whether it succeeds or not. -/
theorem Queryable.flow_on (h : Queryable g) (hs : call.isSource s = false) (u : VertexId) :
    stoppedAt (call.on g).graph s u = stoppedAt g s u := by
  by_cases fits : call.settings.fits g.numVertices = true
  · obtain ⟨-, hd, hc⟩ := h.passes fits
    exact (hc.stoppedAt u).trans (hd.flow s u (seedOf_of_isSource hs))
  · rw [Call.graph_on_of_not_fits fits]

/-- So do any number of calls. -/
theorem Queryable.flow_queried (h : Queryable g) {calls : List (Call W)}
    (hs : ∀ call ∈ calls, call.isSource s = false) (u : VertexId) :
    stoppedAt (queried g calls) s u = stoppedAt g s u :=
  (h.queried_of_on (P := fun g' => stoppedAt g' s u = stoppedAt g s u) rfl
    fun _ hg hflow call hcall => (hg.flow_on (hs call hcall) u).trans hflow).2

theorem Queryable.noResidual_on (h : Queryable g) (cleared : NoResidual g) (call : Call W) :
    NoResidual (call.on g).graph := by
  by_cases fits : call.settings.fits g.numVertices = true
  · exact (h.safe fits).residual
  · rwa [Call.graph_on_of_not_fits fits]

theorem Queryable.noResidual_queried (h : Queryable g) (cleared : NoResidual g)
    (calls : List (Call W)) : NoResidual (queried g calls) :=
  (h.queried_of_on cleared fun _ hg hcleared call _ => hg.noResidual_on hcleared call).2

omit [JsonWeight W] in
/-- What a vertex owes a source that was not seeded is what it owed it before. -/
theorem Decomposes.owedAt_eq {fs : FlowSettings W} (h : Decomposes fs g gd)
    (cleared : NoResidual g) (hs : seedOf fs g s = none) (settings : CollectSettings W)
    (u : VertexId) : owedAt settings gd s u = outdated settings g s u := by
  have hppr := h.ppr u
  have hflow := h.flow s u hs
  have hresidual := h.residual s u hs
  rw [owedAt, outdated]
  cases hold : g.value? u with
  | none =>
    rw [hold, Option.map_none, Option.map_eq_none_iff] at hppr
    rw [hppr, Option.bind_none, Option.bind_none, ite_self]
  | some old =>
    rw [hold, Option.map_some, Option.map_eq_some_iff] at hppr
    obtain ⟨value, hvalue, hppr⟩ := hppr
    rw [hvalue, hold, Option.bind_some, Option.bind_some] at hflow hresidual
    rw [cleared u old hold] at hresidual
    rw [hvalue, Option.bind_some, Option.bind_some, owed, hppr, hflow, hresidual]
    by_cases hindex : settings.noIndex = true
    · rw [if_pos hindex, if_pos hindex]
      rfl
    · rw [if_neg hindex, if_neg hindex]
      cases worthSending settings (old.flow.get? s) <;> rfl

/-- **What a call makes of a vertex that is not one of its sources**: whatever has been sent to it
once more takes the place of its vector. -/
theorem Queryable.ppr_on (h : Queryable g) (cleared : NoResidual g)
    (fits : call.settings.fits g.numVertices = true) (hs : call.isSource s = false) :
    ∃ order : List (Sparse W),
      order.Perm (g.ids.filterMap (outdated call.settings.collectSettings g s)) ∧
        pprOf (call.on g).graph s = (pprOf g s).map fun old =>
          settled old (mergeAllInto Payload.merge none order) := by
  obtain ⟨-, hd, hc⟩ := h.passes fits
  obtain ⟨order, hperm, hvalue⟩ := hc.value s
  have hids : (call.decomposed g).ids = g.ids := by rw [Graph.ids, hd.size, ← Graph.ids]
  have howed : owedAt call.settings.collectSettings (call.decomposed g) s =
      outdated call.settings.collectSettings g s :=
    funext (hd.owedAt_eq cleared (seedOf_of_isSource hs) _)
  refine ⟨order, ?_, ?_⟩
  · rwa [hids, howed] at hperm
  · -- the first pass leaves the vector alone, the second one settles it
    calc pprOf (call.on g).graph s
        = (pprOf (call.decomposed g) s).map fun old =>
            settled old (mergeAllInto Payload.merge none order) := by
          rw [pprOf, hvalue, pprOf, Option.map_map, Option.map_map]
          rfl
      _ = (pprOf g s).map fun old =>
            settled old (mergeAllInto Payload.merge none order) := by
          rw [pprOf, hd.ppr, ← pprOf]

omit [JsonWeight W] in
/-- Flow below the threshold is not sent. -/
theorem outdated_of_light {settings : CollectSettings W} {u : VertexId}
    (light : settings.noIndex = true ∨ ∀ w, stoppedAt g s u = some w → w < settings.threshold) :
    outdated settings g s u = none := by
  rw [outdated]
  rcases light with hindex | hlight
  · exact if_pos hindex
  · rw [stoppedAt] at hlight
    cases hvalue : g.value? u with
    | none => exact ite_self _
    | some value =>
      rw [hvalue, Option.bind_some] at hlight
      have hnone : worthSending settings (value.flow.get? s) = none := by
        rw [worthSending, Option.filter_eq_none_iff]
        simpa using hlight
      rw [Option.bind_some, hnone]
      exact ite_self _

/-- A call that finds no flow of a vertex, or too little, or does not look for it, leaves its vector
alone. -/
theorem Queryable.ppr_on_of_light (h : Queryable g) (cleared : NoResidual g)
    (hs : call.isSource s = false)
    (light : call.settings.noIndex = true ∨
      ∀ u w, stoppedAt g s u = some w → w < call.settings.threshold) :
    pprOf (call.on g).graph s = pprOf g s := by
  by_cases fits : call.settings.fits g.numVertices = true
  · have hnothing : outdated call.settings.collectSettings g s = fun _ => none := by
      funext u
      exact outdated_of_light (light.imp_right fun hlight => hlight u)
    obtain ⟨order, hperm, hppr⟩ := h.ppr_on cleared fits hs
    rw [hnothing, List.filterMap_none, List.perm_nil] at hperm
    obtain rfl := hperm
    rw [hppr]
    cases pprOf g s <;> rfl
  · rw [Call.graph_on_of_not_fits fits]

end Repetition

omit [Weight W] in
theorem IsFresh.noResidual {g : Graph (VertexState W)} (fresh : IsFresh g) : NoResidual g :=
  fun _ value hv => (fresh value (Array.mem_of_getElem? hv)).2

omit [Weight W] in
theorem IsFresh.stoppedAt {g : Graph (VertexState W)} (fresh : IsFresh g) (s u : VertexId) :
    stoppedAt g s u = none := by
  rw [PageRank.stoppedAt]
  cases hu : g.value? u with
  | none => rfl
  | some value => exact fresh.get?_flow hu s

/-- **A later query sends flow home again.** On a graph that was loaded, and behind any earlier
calls, a call changes nothing about the flow of a vertex that is not one of its sources. It leaves
the page-rank vector of the vertex alone if it does not use the index, if the vertex has never been
a source, or if what earlier calls have left of its flow is below the threshold everywhere.
Otherwise the vector is replaced by what that flow is worth where it stopped. -/
theorem later_query_resends_flow {format : GraphFormat} {path : String} {content : List UInt8}
    {g : Graph (VertexState Binary64)} {events : List Event}
    (h : format.load path content = .ok (g, events)) (earlier : List (Call Binary64))
    (call : Call Binary64) {v : VertexId} (hv : call.isSource v = false) :
    (∀ u, stoppedAt (call.on (queried g earlier)).graph v u = stoppedAt (queried g earlier) v u) ∧
    (call.settings.noIndex = true ∨ (∀ before ∈ earlier, before.isSource v = false) ∨
        (∀ u w, stoppedAt (queried g earlier) v u = some w → w < call.settings.threshold) →
      pprOf (call.on (queried g earlier)).graph v = pprOf (queried g earlier) v) ∧
    (call.settings.fits g.numVertices = true → ∃ order : List (Sparse Binary64),
      order.Perm ((queried g earlier).ids.filterMap
        (outdated call.settings.collectSettings (queried g earlier) v)) ∧
      pprOf (call.on (queried g earlier)).graph v = (pprOf (queried g earlier) v).map fun old =>
        settled old (mergeAllInto Payload.merge none order)) := by
  have fresh := GraphFormat.isFresh_of_load h
  have hload : Queryable g := ⟨GraphFormat.finalized_of_load h, fresh.keysInside⟩
  obtain ⟨hq, hsize⟩ := hload.queryable_queried earlier
  have cleared : NoResidual (queried g earlier) := hload.noResidual_queried fresh.noResidual earlier
  refine ⟨hq.flow_on hv, ?_, fun fits => hq.ppr_on cleared (hsize ▸ fits) hv⟩
  rintro (hindex | hnever | hlight)
  · exact hq.ppr_on_of_light cleared hv (.inl hindex)
  · refine hq.ppr_on_of_light cleared hv (.inr fun u w hw => ?_)
    rw [hload.flow_queried hnever u, fresh.stoppedAt v u] at hw
    cases hw
  · exact hq.ppr_on_of_light cleared hv (.inr hlight)

/-! ### Two queries -/

/-- A query of one vertex, over two rounds in which flow moves. -/
def queryOf (source : VertexId) (noIndex : Bool) : Call Binary64 where
  settings := ⟨2, 0, 1 / (2 : Nat), noIndex, 1⟩
  sources := some (VertexSet.ofList [source])

/-- A cycle of two vertices behind a query of the first one. -/
def queriedCycle : Graph (VertexState Binary64) :=
  queried (Graph.twoCycle {} {}) [queryOf 0 false]

/-- The query gives the vertex the weights `1 / 2` and `1 / 4`. A query of the other vertex leaves
it with a quarter of that, unless it does without the index. -/
theorem later_query_resends_flow_cycle :
    pprOf queriedCycle 0 = some (VertexMap.ofList [(0, 1 / 2), (1, 1 / 4)]) ∧
    pprOf ((queryOf 1 false).on queriedCycle).graph 0 =
      some (VertexMap.ofList [(0, 1 / 8), (1, 1 / 16)]) ∧
    pprOf ((queryOf 1 true).on queriedCycle).graph 0 =
      some (VertexMap.ofList [(0, 1 / 2), (1, 1 / 4)]) ∧
    stoppedAt ((queryOf 1 false).on queriedCycle).graph 0 0 = some (1 / 4) := by
  have hold : pprOf queriedCycle 0 = some (VertexMap.ofList [(0, 1 / 2), (1, 1 / 4)]) := by
    decide +kernel
  have houtdated : queriedCycle.ids.filterMap
      (outdated (queryOf 1 false).settings.collectSettings queriedCycle 0) =
        [VertexMap.ofList [(0, 1 / 8), (1, 1 / 16)]] := by decide +kernel
  obtain ⟨hflow, -, hppr⟩ := later_query_resends_flow GraphFormat.load_cycle [queryOf 0 false]
    (queryOf 1 false) (v := 0) (by decide +kernel)
  obtain ⟨-, hframe, -⟩ := later_query_resends_flow GraphFormat.load_cycle [queryOf 0 false]
    (queryOf 1 true) (v := 0) (by decide +kernel)
  obtain ⟨order, hperm, hreplaced⟩ := hppr (by decide +kernel)
  obtain rfl := List.perm_singleton.1 (houtdated ▸ hperm)
  refine ⟨hold, hreplaced.trans ?_, (hframe (.inl rfl)).trans hold, (hflow 0).trans ?_⟩
  · exact (congrArg (Option.map _) hold).trans (by decide +kernel)
  · decide +kernel

/-- So queries do not leave the vectors of other vertices alone. -/
theorem not_only_own_sources : ¬ ∀ (format : GraphFormat) (path : String) (content : List UInt8)
    (g : Graph (VertexState Binary64)) (events : List Event),
    format.load path content = .ok (g, events) →
      ∀ (earlier : List (Call Binary64)) (call : Call Binary64) (v : VertexId),
        call.isSource v = false →
          pprOf (call.on (queried g earlier)).graph v = pprOf (queried g earlier) v := by
  intro h
  have hsame := h _ _ _ _ _ GraphFormat.load_cycle [queryOf 0 false] (queryOf 1 false) 0
    (by decide +kernel)
  exact absurd hsame (by decide +kernel)

end Superstep.PageRank
