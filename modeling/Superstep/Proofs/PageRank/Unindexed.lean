import Superstep.Proofs.Binary64.Exact
import Superstep.Proofs.PageRank.Safety

/-!
# Queries without an index

A query can be told that there is no index. It then forwards residuals only, and none of those that
are below the threshold. On a graph that has no vectors it may as well not be told: flow is worth
nothing there, but it takes along the residual that it meets, however little that is. So the answers
differ in small entries, and in nothing else.

That a residual arrives as it is has to be seen. It travels alone in one query, and in the other one
it may be added to an empty vector, and so to zero. A residual is a sum that was itself begun at
zero, and `FromZero` holds of all of these.

Two runs can be compared at all only if their decompositions lead to the same residuals, whoever
delivers first. One worker delivers in one order, and more than one may do so if none of the sums
that come up depends on it, which is `FlowsExactly`. The collection needs no such condition: a
source hears of every key from one vertex only.

## Main definitions

* `FlowsExactly`: the sums that a decomposition makes
* `delivered`: what a source hears of a vertex if there are no vectors
* `AgreeAbove`: two vectors that differ in small entries

## Main results

* `graph_decompose`: a decomposition does not depend on its schedules
* `Collects.get?_ppr`: the entries behind a collection without vectors
* `index_agrees_above_threshold`: both queries
-/

namespace Superstep.PageRank

variable {W : Type} [Weight W]

/-- A graph without any vectors. -/
def IsBlank (g : Graph (VertexState W)) : Prop := ∀ value ∈ g.data, value = {}

omit [Weight W] in
theorem IsBlank.isFresh {g : Graph (VertexState W)} (blank : IsBlank g) : IsFresh g := by
  intro value h
  rw [blank value h]
  exact ⟨rfl, rfl⟩

/-! ### Decompositions in any order -/

section Course

variable [JsonWeight W]

/-- The engine of a decomposition, with every vertex signalled. -/
def launcher (settings : ComputeSettings W) (sources : Option VertexSet) (n : Nat) :
    Engine (Sparse W) (VertexState W) (Sparse W) Unit :=
  (decomposer settings sources n).signalAll

/-- What a decomposition has reached behind `r` rounds. -/
def course (settings : ComputeSettings W) (sources : Option VertexSet) (g : Graph (VertexState W))
    (hf : g.finalized = true) (r : Nat) : Tableau (VertexState W) (Sparse W) :=
  ((launcher settings sources g.numVertices).tableau g hf).rounds
    (launcher settings sources g.numVertices).machine 0 r

/-- What the vertices are sent in the rounds of a decomposition adds up to the same in any order,
weight by weight. -/
def FlowsExactly (settings : ComputeSettings W) (sources : Option VertexSet)
    (g : Graph (VertexState W)) (hf : g.finalized = true) : Prop :=
  ∀ r < settings.niters + 1, ∀ v id, AnyOrder Sparse.added none
    ((Accumulator.arrivals v ((course settings sources g hf r).sent
      (launcher settings sources g.numVertices).machine r)).map (·.get? id))

variable {settings : ComputeSettings W} {sources : Option VertexSet} {g : Graph (VertexState W)}
  {hf : g.finalized = true}

theorem steady_launcher
    (fits : Tiling.fits g.numVertices settings.decompositionOptions.workers = true)
    (exact : settings.workers ≤ 1 ∨ FlowsExactly settings sources g hf) :
    Engine.Steady (launcher settings sources g.numVertices) g := by
  have ready : Engine.Prepared (launcher settings sources g.numVertices) g :=
    prepared_decomposer hf fits
  refine ⟨ready.regular, hf, ready.size, ready.inside, Engine.carries_of_persist rfl, ?_⟩
  intro r v left
  have hround : (launcher settings sources g.numVertices).round = 0 := rfl
  have hcap : (launcher settings sources g.numVertices).options.maxRounds = settings.niters + 1 :=
    rfl
  rw [hround, Nat.zero_add, hcap] at left
  rw [hround, Nat.zero_add]
  refine exact.imp (fun one => ?_) fun h => Sparse.anyOrder_merge (h r left v)
  exact ready.regular.length_workers_le_one (ComputeSettings.workers_le_one one)

/-- **A decomposition does not depend on its schedules.** -/
theorem graph_decompose
    (fits : Tiling.fits g.numVertices settings.decompositionOptions.workers = true)
    (exact : settings.workers ≤ 1 ∨ FlowsExactly settings sources g hf)
    (schedules : Nat → Schedule) :
    (decompose g settings sources schedules).graph =
      (course settings sources g hf (settings.niters + 1)).graph :=
  ((steady_launcher fits exact).run_eq_rounds schedules).graph

theorem follows_course (r : Nat) :
    Follows ((launcher settings sources g.numVertices).tableau g hf)
      (course settings sources g hf r) := follows_rounds rfl r

/-- Where no two edges lead to one vertex there is nothing to add up. -/
theorem flowsExactly_of_nodup_targets (h : (g.edges.toList.map Edge.target).Nodup) :
    FlowsExactly settings sources g hf := by
  intro r _ v id
  have hfollows : Follows _ (course settings sources g hf r) := follows_course r
  have hone : ((course settings sources g hf r).graph.sourcesOf v).length ≤ 1 := by
    have hcount := List.nodup_iff_count_le_one.1 h v
    rw [List.count, List.countP_map, List.countP_eq_length_filter] at hcount
    rw [Graph.sourcesOf, hfollows.edges, List.length_map]
    exact hcount
  refine anyOrder_of_length_le_one _ _ ?_
  rw [sent_eq rfl fun _ => rfl, Graph.arrivals_broadcast (course settings sources g hf r).finalized,
    List.length_map]
  exact Nat.le_trans (List.length_filterMap_le ..) hone

end Course

/-! ### Residuals -/

/-- Every residual is left as it is by an addition to zero. -/
def RetainsFromZero (g : Graph (VertexState W)) : Prop :=
  ∀ u value, g.value? u = some value → ∀ s w, value.residual.get? s = some w → Sparse.FromZero w

section Residuals

variable (law : ∀ (old : Option W) (w : W), (∀ x, old = some x → Sparse.FromZero x) →
  Sparse.FromZero (Sparse.accumulate old w))
include law

theorem fromZero_added {old arrival : Option W} (h : ∀ x, old = some x → Sparse.FromZero x) {w : W}
    (hw : Sparse.added old arrival = some w) : Sparse.FromZero w := by
  cases arrival with
  | none => exact h w hw
  | some x => exact Option.some.inj hw ▸ law old x h

variable [JsonWeight W]

theorem retainsFromZero_round {flow : FlowSettings W}
    {m : Machine (Sparse W) (VertexState W) (Sparse W) Unit}
    (hp : m.program = Decomposition.program flow) {t : Tableau (VertexState W) (Sparse W)}
    (h : RetainsFromZero t.graph) (r : Nat) : RetainsFromZero (t.round m r).graph := by
  intro u value hu s w hw
  obtain ⟨old, hold, -, hentries⟩ := exists_value_of_round hp hu
  rw [(hentries s).1] at hw
  split at hw
  · exact h u old hold s w hw
  · exact fromZero_added law (h u old hold s) hw

theorem retainsFromZero_course {settings : ComputeSettings W} {sources : Option VertexSet}
    {g : Graph (VertexState W)} {hf : g.finalized = true} (h : RetainsFromZero g) (r : Nat) :
    RetainsFromZero (course settings sources g hf r).graph := by
  induction r with
  | zero => exact h
  | succ r ih => exact retainsFromZero_round law rfl ih _

end Residuals

/-! ### What arrives without vectors -/

/-- What a source hears of a vertex that has no vector: the residual, if flow takes it along or if
it is not below the threshold. -/
def delivered (settings : CollectSettings W) (flow retained : Option W) : Option W :=
  retained.filter fun w => ¬ w < settings.threshold ∨
    (worthSending settings (if settings.noIndex then none else flow)).isSome = true

/-- Two vectors that differ in entries below the threshold only; the first one has all of them. -/
structure AgreeAbove (threshold : W) (p q : Sparse W) : Prop where
  entry : ∀ u w, q.get? u = some w → p.get? u = some w
  below : ∀ u w, p.get? u = some w → q.get? u ≠ some w → w < threshold

section Delivered

variable {settings : CollectSettings W} {flow retained : Option W}

/-- A parcel without a vector holds what is delivered and nothing else. -/
theorem get?_owed (hr : ∀ w, retained = some w → Sparse.FromZero w) (u id : VertexId) :
    (owed settings u VertexMap.empty flow retained).bind (·.get? id) =
      if u = id then delivered settings flow retained else none := by
  have hscaled : ∀ weight : W, Sparse.scaled VertexMap.empty weight = VertexMap.empty :=
    fun _ => rfl
  rw [owed, delivered]
  cases worthSending settings (if settings.noIndex then none else flow) with
  | some weight =>
    cases retained with
    | none => simp [Collection.worth, hscaled]
    | some w =>
      have hzero : Sparse.accumulate none w = w := hr w rfl
      simp [Collection.worth, hscaled, Sparse.get?_add, hzero, Option.filter_some, eq_comm]
  | none =>
    cases retained with
    | none => simp [worthSending_none]
    | some w =>
      by_cases hw : w < settings.threshold <;>
        simp [worthSending_some, hw, VertexMap.get?_singleton, Option.filter_some]

theorem delivered_eq_some {w : W} : delivered settings flow retained = some w ↔
    retained = some w ∧ (¬ w < settings.threshold ∨
      (worthSending settings (if settings.noIndex then none else flow)).isSome = true) := by
  rw [delivered, Option.filter_eq_some_iff, decide_eq_true_eq]

theorem delivered_noIndex {θ w : W} :
    delivered ⟨θ, true⟩ flow retained = some w ↔ retained = some w ∧ ¬ w < θ := by
  rw [delivered_eq_some, if_pos rfl, worthSending_none]
  simp

end Delivered

omit [Weight W] in
theorem get?_settled_empty (arrived : Option (Sparse W)) (id : VertexId) :
    (settled VertexMap.empty arrived).get? id = arrived.bind (·.get? id) := by
  rw [settled, ← VertexMap.bind_filter_isEmpty]
  cases arrived.filter (!·.isEmpty) <;> rfl

/-- What is there for one item only. -/
theorem filterMap_ite_eq {α β : Type} [DecidableEq α] {l : List α} (nodup : l.Nodup) {a : α}
    {o : Option β} (h : o ≠ none → a ∈ l) :
    l.filterMap (fun b => if b = a then o else none) = o.toList := by
  have hfilter : l.filterMap (fun b => if b = a then o else none) =
      (l.filter (· == a)).filterMap fun _ => o := by
    rw [List.filterMap_filter]
    simp only [beq_iff_eq]
  by_cases ha : a ∈ l
  · rw [hfilter, List.filter_beq, List.count_eq_one_of_mem nodup ha]
    cases o <;> rfl
  · obtain rfl : o = none := Classical.not_not.1 (mt h ha)
    rw [hfilter, List.filterMap_none]
    rfl

section Collecting

variable {settings : CollectSettings W} {g g' : Graph (VertexState W)}

/-- What a source hears of a vertex of a graph. -/
def deliveredAt (settings : CollectSettings W) (g : Graph (VertexState W)) (s u : VertexId) :
    Option W :=
  (g.value? u).bind fun value =>
    delivered settings (value.flow.get? s) (value.residual.get? s)

variable (bare : ∀ v value, g.value? v = some value → value.ppr = VertexMap.empty)
  (hz : RetainsFromZero g)
include bare hz

theorem get?_owedAt (s u id : VertexId) : (owedAt settings g s u).bind (·.get? id) =
    if u = id then deliveredAt settings g s u else none := by
  rw [owedAt, deliveredAt]
  cases hu : g.value? u with
  | none => rw [Option.bind_none, Option.bind_none, Option.bind_none, ite_self]
  | some value =>
    rw [Option.bind_some, Option.bind_some, bare u value hu, get?_owed (hz u value hu s)]

/-- Every key comes from one vertex only. -/
theorem filterMap_get?_owedAt (s id : VertexId) :
    (g.ids.filterMap (owedAt settings g s)).filterMap (·.get? id) =
      (deliveredAt settings g s id).toList := by
  have hentry : ∀ u ∈ g.ids, (owedAt settings g s u).bind (·.get? id) =
      if u = id then deliveredAt settings g s id else none := by
    intro u _
    rw [get?_owedAt bare hz]
    exact ite_congr rfl (fun h => by rw [h]) fun _ => rfl
  rw [List.filterMap_filterMap, List.filterMap_congr hentry]
  refine filterMap_ite_eq (nodup_map_ofNat_range g.size_le) fun h => Graph.mem_ids.2 ?_
  obtain ⟨w, hw⟩ := Option.ne_none_iff_exists'.1 h
  obtain ⟨value, hvalue, -⟩ := Option.bind_eq_some_iff.1 hw
  exact Graph.lt_of_value? hvalue

/-- **The entries behind a collection without vectors** are what was delivered, whoever delivers
first. -/
theorem Collects.get?_ppr (h : Collects settings g g') {s : VertexId} {value : VertexState W}
    (hs : g'.value? s = some value) (u : VertexId) :
    value.ppr.get? u = deliveredAt settings g s u := by
  obtain ⟨order, hperm, hvalue⟩ := h.value s
  rw [hs, eq_comm, Option.map_eq_some_iff] at hvalue
  obtain ⟨old, hold, rfl⟩ := hvalue
  have hentries : (order.filterMap (·.get? u)).Perm (deliveredAt settings g s u).toList :=
    filterMap_get?_owedAt bare hz s u ▸ hperm.filterMap _
  have hzero : ∀ parcel ∈ order, ∀ w, parcel.get? u = some w → Sparse.FromZero w := by
    intro parcel hparcel w hw
    have hmem := hentries.subset (List.mem_filterMap.2 ⟨parcel, hparcel, hw⟩)
    rw [Option.mem_toList, deliveredAt] at hmem
    obtain ⟨sender, hu, hdelivered⟩ := Option.bind_eq_some_iff.1 hmem
    exact hz u sender hu s w (delivered_eq_some.1 hdelivered).1
  have hone : (deliveredAt settings g s u).toList.length ≤ 1 := by
    cases deliveredAt settings g s u <;> simp
  rw [bare s old hold, get?_settled_empty, Sparse.get?_mergeAllInto hzero]
  refine (anyOrder_of_length_le_one _ none hone _ hentries).trans ?_
  cases deliveredAt settings g s u <;> rfl

end Collecting

/-! ### Both queries -/

/-- What is delivered without an index is delivered with one, and what is not is little. -/
theorem agreeAbove_of_collects {g p q : Graph (VertexState W)} {θ : W}
    (bare : ∀ v value, g.value? v = some value → value.ppr = VertexMap.empty)
    (hz : RetainsFromZero g) (hp : Collects ⟨θ, false⟩ g p) (hq : Collects ⟨θ, true⟩ g q)
    {s : VertexId} {a b : VertexState W} (ha : p.value? s = some a) (hb : q.value? s = some b) :
    AgreeAbove θ a.ppr b.ppr := by
  constructor
  · intro u w hw
    rw [hq.get?_ppr bare hz hb] at hw
    obtain ⟨value, hu, hdelivered⟩ := Option.bind_eq_some_iff.1 hw
    obtain ⟨hretained, hle⟩ := delivered_noIndex.1 hdelivered
    rw [hp.get?_ppr bare hz ha, deliveredAt, hu]
    exact delivered_eq_some.2 ⟨hretained, .inl hle⟩
  · intro u w hw hmissing
    rw [hp.get?_ppr bare hz ha] at hw
    obtain ⟨value, hu, hdelivered⟩ := Option.bind_eq_some_iff.1 hw
    by_contra hle
    refine hmissing ?_
    rw [hq.get?_ppr bare hz hb, deliveredAt, hu]
    exact delivered_noIndex.2 ⟨(delivered_eq_some.1 hdelivered).1, hle⟩

/-- What a sum starts from is zero, or a sum that was started at zero. -/
theorem fromZero_accumulate (old : Option Binary64) (w : Binary64)
    (h : ∀ x, old = some x → Sparse.FromZero x) : Sparse.FromZero (Sparse.accumulate old w) := by
  refine Binary64.zero_add_add (x := old.getD 0) ?_ w
  cases old with
  | none => decide
  | some x => exact h x rfl

section Blank

variable {settings : ComputeSettings Binary64} {sources : Option VertexSet}
  {g : Graph (VertexState Binary64)} (hf : g.finalized = true) (blank : IsBlank g)
include hf blank

/-- The rounds of a decomposition make no page-rank vectors. -/
theorem ppr_course (r : Nat) (v : VertexId) (value : VertexState Binary64)
    (hv : (course settings sources g hf r).graph.value? v = some value) :
    value.ppr = VertexMap.empty := by
  have hfollows : Follows _ (course settings sources g hf r) := follows_course r
  have hppr := hfollows.ppr v
  rw [hv, Option.map_some, eq_comm, Option.map_eq_some_iff] at hppr
  obtain ⟨old, hold, hppr⟩ := hppr
  rw [← hppr, blank old (Array.mem_of_getElem? hold)]

theorem retainsFromZero_of_blank (r : Nat) :
    RetainsFromZero (course settings sources g hf r).graph := by
  refine retainsFromZero_course fromZero_accumulate (fun u value hu s w hw => ?_) r
  exact absurd (hw.symm.trans (blank.isFresh.get?_residual hu s)) (Option.some_ne_none w)

/-- A query on a graph without vectors collects from where the rounds of its decomposition lead. -/
theorem collects_course (call : Call Binary64) (fits : call.settings.fits g.numVertices = true)
    (exact : call.settings.workers ≤ 1 ∨ FlowsExactly call.settings call.sources g hf) :
    (∃ summary, (call.on g).result = .ok summary) ∧
      (call.on g).graph.numVertices = g.numVertices ∧
      Collects call.settings.collectSettings
        (course call.settings call.sources g hf (call.settings.niters + 1)).graph
        (call.on g).graph := by
  have hq : Queryable g := ⟨hf, blank.isFresh.keysInside⟩
  obtain ⟨⟨summary, hresult, -⟩, hd, hc⟩ := hq.passes fits
  have hgraph : call.decomposed g =
      (course call.settings call.sources g hf (call.settings.niters + 1)).graph :=
    graph_decompose (Bool.and_eq_true_iff.1 fits).2 exact call.schedule.decomposition
  exact ⟨⟨summary, hresult⟩, hc.size.trans hd.size, hgraph ▸ hc⟩

end Blank

/-- **Without an index, a query that is not told so answers the same above the threshold.** All that
one query delivers the other one delivers too, as it is, and what only the query that counts on an
index delivers is below the threshold. If rounds and workers can be counted, both queries succeed.
-/
theorem index_agrees_above_threshold {settings : ComputeSettings Binary64}
    {g : Graph (VertexState Binary64)} (hf : g.finalized = true) (blank : IsBlank g)
    (sources : Option VertexSet)
    (exact : settings.workers ≤ 1 ∨ FlowsExactly settings sources g hf)
    (schedule schedule' : ComputeSchedule) :
    let indexed := compute g { settings with noIndex := false } sources schedule
    let unindexed := compute g { settings with noIndex := true } sources schedule'
    (settings.fits g.numVertices = true →
      (∃ summary, indexed.result = .ok summary) ∧ ∃ summary, unindexed.result = .ok summary) ∧
    indexed.graph.numVertices = g.numVertices ∧ unindexed.graph.numVertices = g.numVertices ∧
    ∀ s p q, indexed.graph.value? s = some p → unindexed.graph.value? s = some q →
      AgreeAbove settings.threshold p.ppr q.ppr := by
  intro indexed unindexed
  by_cases fits : settings.fits g.numVertices = true
  · obtain ⟨hindexed, hsize, hp⟩ := collects_course hf blank
      ⟨{ settings with noIndex := false }, sources, schedule⟩ fits exact
    obtain ⟨hunindexed, hsize', hq⟩ := collects_course hf blank
      ⟨{ settings with noIndex := true }, sources, schedule'⟩ fits exact
    exact ⟨fun _ => ⟨hindexed, hunindexed⟩, hsize, hsize', fun s p q =>
      agreeAbove_of_collects (ppr_course hf blank _) (retainsFromZero_of_blank hf blank _) hp hq⟩
  · -- neither query does anything
    have hindexed : indexed.graph = g := congrArg Computed.graph (if_neg fits)
    have hunindexed : unindexed.graph = g := congrArg Computed.graph (if_neg fits)
    rw [hindexed, hunindexed]
    refine ⟨(absurd · fits), rfl, rfl, fun s p q hs hs' => ?_⟩
    rw [blank p (Array.mem_of_getElem? hs), blank q (Array.mem_of_getElem? hs')]
    exact ⟨nofun, nofun⟩

/-- Three rounds, in which a quarter restarts and a quarter is too little to be passed on. -/
def quarterSettings : ComputeSettings Binary64 := ⟨3, 1 / (4 : Nat), 1 / (4 : Nat), false, 2⟩

/-- The second worker comes first in all that is done. -/
def secondFirst : ComputeSchedule :=
  ⟨fun _ => ⟨[1, 0], [], [1, 0]⟩, [1, 0], fun _ => ⟨[1, 0], [], []⟩⟩

/-- Two vertices that point at each other, queried with an index and without one. -/
def indexedQuery : Computed Binary64 :=
  compute (Graph.twoCycle {} {}) { quarterSettings with noIndex := false } none default

def unindexedQuery : Computed Binary64 :=
  compute (Graph.twoCycle {} {}) { quarterSettings with noIndex := true } none secondFirst

/-- What the second vertex retained for the first one is too little to go home alone, but flow takes
it along. -/
theorem index_agrees_above_threshold_cycle :
    (∃ summary, indexedQuery.result = .ok summary) ∧
    (∃ summary, unindexedQuery.result = .ok summary) ∧
    ∃ p q, indexedQuery.graph.value? 0 = some p ∧ unindexedQuery.graph.value? 0 = some q ∧
      p.ppr.entries = [(0, 25 / 64), (1, 3 / 16)] ∧ q.ppr.entries = [(0, 25 / 64)] ∧
      AgreeAbove (1 / 4) p.ppr q.ppr := by
  have blank : IsBlank (Graph.twoCycle (D := VertexState Binary64) {} {}) := by
    simp [IsBlank, Graph.twoCycle]
  obtain ⟨hresult, -, -, hagree⟩ := index_agrees_above_threshold rfl blank none
    (.inr (flowsExactly_of_nodup_targets (by decide)) : quarterSettings.workers ≤ 1 ∨ _) default
      secondFirst
  obtain ⟨hindexed, hunindexed⟩ := hresult (by decide)
  have hp : (indexedQuery.graph.value? 0).map (·.ppr.entries) =
      some [(0, 25 / 64), (1, 3 / 16)] := by
    decide +kernel
  have hq : (unindexedQuery.graph.value? 0).map (·.ppr.entries) = some [(0, 25 / 64)] := by
    decide +kernel
  obtain ⟨p, hp, hpairs⟩ := Option.map_eq_some_iff.1 hp
  obtain ⟨q, hq, hpairs'⟩ := Option.map_eq_some_iff.1 hq
  exact ⟨hindexed, hunindexed, p, q, hp, hq, hpairs, hpairs', hagree 0 p q hp hq⟩

end Superstep.PageRank
