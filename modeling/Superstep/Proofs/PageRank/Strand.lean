import Superstep.Proofs.Engine.Broadcast
import Superstep.Proofs.Engine.Workload
import Superstep.Proofs.Sparse
import Superstep.PageRank.Decomposition

/-!
# The flow of one source

Vectors are keyed by sources, and no step of a decomposition lets one key act on another: retaining
and passing on go entry by entry, and so do merging and adding. What a decomposition does for one
source is therefore a system of its own, with one weight per vertex where the program has a vector.
That system is a `Strand`, and a round of it is `Strand.next`.

Two things could still tell a strand which other sources there are. A vertex takes part in a round
if anything is pending for it, but if nothing of the strand is, its turn changes nothing of the
strand. And an entry that arrives behind a vector without it is added to zero instead of being
stored; that is the same for the weights that are passed on, which lie above the threshold, if an
addition to zero leaves those alone. `FromZero` is that condition, and nothing else is asked of
weights here.

## Main results

* `strandOf_round`: a round of the decomposition is a round of each of its strands
-/

namespace Superstep.PageRank

variable {W : Type} [Weight W]

/-- What concerns one source. -/
@[ext]
structure Strand (W : Type) where
  /-- Its weight in what is pending for a vertex. -/
  pending : VertexId → Option W
  /-- What a vertex retained of it. -/
  residual : VertexId → Option W
  /-- What stopped at a vertex. -/
  flow : VertexId → Option W

namespace Strand

section Next

variable {D : Type} (settings : FlowSettings W) (g : Graph D) (seed : Option VertexId)
  (σ : Strand W) (r : Nat)

/-- The weight at a vertex when round `r` starts. Round zero seeds. -/
def arriving (v : VertexId) : Option W :=
  if r = 0 then if seed = some v then some 1 else none else σ.pending v

/-- The weight that each out-edge of a vertex carries on. -/
def passed (u : VertexId) : Option W :=
  ((σ.arriving seed r u).map (Decomposition.passedShare settings (g.outDegreeOf u) * ·)).filter
    (settings.threshold < ·)

/-- One round, the last one of `cap`. -/
def next (cap : Nat) : Strand W :=
  if cap ≤ r + 1 then
    { pending := fun _ => none
      residual := σ.residual
      flow := fun v => Sparse.added (σ.flow v) (σ.arriving seed r v) }
  else
    { pending := fun v =>
        mergeAllInto (· + ·) none ((g.sourcesOf v).filterMap (σ.passed settings g seed r))
      residual := fun v =>
        Sparse.added (σ.residual v) ((σ.arriving seed r v).map (settings.resetProb * ·))
      flow := σ.flow }

end Next

/-- The strand after `k` rounds. -/
def rounds {D : Type} (settings : FlowSettings W) (g : Graph D) (seed : Option VertexId)
    (cap : Nat) (σ : Strand W) : Nat → Strand W
  | 0 => σ
  | k + 1 => (rounds settings g seed cap σ k).next settings g seed k cap

end Strand

/-! ### Strands of tableaux -/

/-- The strand of a source. -/
def strandOf (s : VertexId) (t : Tableau (VertexState W) (Sparse W)) : Strand W where
  pending v := (t.pending v).bind (·.get? s)
  residual v := (t.graph.value? v).bind (·.residual.get? s)
  flow v := (t.graph.value? v).bind (·.flow.get? s)

omit [Weight W] in
theorem pending_strandOf (s : VertexId) (t : Tableau (VertexState W) (Sparse W)) (v : VertexId) :
    (strandOf s t).pending v = (t.pending v).bind (·.get? s) := rfl

omit [Weight W] in
theorem residual_strandOf (s : VertexId) (t : Tableau (VertexState W) (Sparse W)) (v : VertexId) :
    (strandOf s t).residual v = (t.graph.value? v).bind (·.residual.get? s) := rfl

omit [Weight W] in
theorem flow_strandOf (s : VertexId) (t : Tableau (VertexState W) (Sparse W)) (v : VertexId) :
    (strandOf s t).flow v = (t.graph.value? v).bind (·.flow.get? s) := rfl

/-- The vertex at which a source starts its flow, if it does. -/
def seedOf {D : Type} (settings : FlowSettings W) (g : Graph D) (s : VertexId) : Option VertexId :=
  if settings.isSeeded s = true ∧ s.toNat < g.numVertices then some s else none

theorem get?_arriving (settings : FlowSettings W) {D : Type} {g : Graph D} {c : Context}
    {v s : VertexId} (hv : v.toNat < g.numVertices) (payload : Sparse W) :
    (Decomposition.arriving settings c v payload).get? s =
      if c.round = 0 then if seedOf settings g s = some v then some 1 else none
      else payload.get? s := by
  rw [Decomposition.arriving, seedOf]
  by_cases hr : c.round = 0
  · rw [if_pos hr, if_pos hr]
    by_cases hs : v = s
    · subst hs
      by_cases hseed : settings.isSeeded v = true <;>
        simp [hseed, hv, VertexMap.get?_singleton]
    · by_cases hseed : settings.isSeeded v = true <;>
        simp [hseed, hs, Ne.symm hs, VertexMap.get?_singleton]
  · rw [if_neg hr, if_neg hr]

theorem get?_retained (settings : FlowSettings W) (flow : Sparse W) (s : VertexId) :
    (Decomposition.retained settings flow).get? s =
      (flow.get? s).map (settings.resetProb * ·) := by
  rw [Decomposition.retained, VertexMap.get?_filterMap, Option.map_eq_bind]
  rfl

theorem get?_passed (settings : FlowSettings W) (outDegree : Nat) (flow : Sparse W)
    (s : VertexId) :
    (Decomposition.passed settings outDegree flow).get? s =
      ((flow.get? s).map (Decomposition.passedShare settings outDegree * ·)).filter
        (settings.threshold < ·) := by
  rw [Decomposition.passed, VertexMap.get?_filterMap]
  cases flow.get? s with
  | none => rfl
  | some w =>
    rw [Option.bind_some, Option.map_some, Option.filter_some]
    simp only [decide_eq_true_eq]

/-! ### What the vertices send -/

/-- What a vertex carries over every out-edge, given the flow at it. -/
def outflow (settings : FlowSettings W) (c : Context) (outDegree : Nat) (flow : Sparse W) :
    Sparse W :=
  if c.isLastRound then VertexMap.empty else Decomposition.passed settings outDegree flow

theorem settle_fst (settings : FlowSettings W) (c : Context) (site : Site) (flow : Sparse W)
    (value : VertexState W) :
    (Decomposition.settle settings c site flow value).1 =
      outflow settings c site.outDegree flow := by
  rw [Decomposition.settle, outflow]
  split <;> rfl

section Round

variable [JsonWeight W] {settings : FlowSettings W} {t : Tableau (VertexState W) (Sparse W)}
  {m : Machine (Sparse W) (VertexState W) (Sparse W) Unit} {r : Nat}

/-- The program sends what is left of the flow over every out-edge, unless nothing is. -/
theorem signals_program (settings : FlowSettings W) (c : Context)
    (v : Vertex (VertexState W)) (flow : Sparse W) :
    (Decomposition.program settings).signals c v flow =
      if flow.isEmpty then [] else v.targets.map fun w => ⟨w, flow⟩ := by
  rw [VertexProgram.signals]
  by_cases h : flow.isEmpty = true
  · simp [Decomposition.program, h, Vertex.links, Direction.includesIn, Direction.includesOut]
  · rw [if_neg h, ← Vertex.map_target_outLinks, List.map_eq_flatMap]
    simp [Decomposition.program, h, Vertex.links, Direction.includesIn, Direction.includesOut]

theorem onlyScatters_program (settings : FlowSettings W) :
    (Decomposition.program settings).OnlyScatters := .of_asides rfl

/-- The program never names a vertex that does not exist. -/
theorem staysInside_program (settings : FlowSettings W) :
    (Decomposition.program settings).StaysInside := by
  refine .of_asides rfl fun c v flow signal h => ?_
  rw [signals_program] at h
  split at h
  · cases h
  · obtain ⟨w, hw, rfl⟩ := List.mem_map.1 h
    exact Topology.targets_lt v.inRange w hw

/-- What a vertex broadcasts in round `r`. -/
def sends (settings : FlowSettings W) (t : Tableau (VertexState W) (Sparse W)) (c : Context)
    (u : VertexId) : Option (Sparse W) :=
  ((t.pending u).map fun payload => outflow settings c (t.graph.outDegreeOf u)
    (Decomposition.arriving settings c u payload)).filter (!·.isEmpty)

theorem sent_eq (hp : m.program = Decomposition.program settings)
    (hc : ∀ flow, m.carry flow = flow) :
    t.sent m r = t.graph.ids.flatMap (t.graph.broadcast (sends settings t (t.context m r))) := by
  rw [Tableau.sent, ← Graph.map_id_vertices t.finalized, List.flatMap_map]
  refine List.flatMap_congr fun v hv => ?_
  have hv := Network.network_eq_of_mem hv
  rw [Tableau.signalsOf, Graph.broadcast, sends]
  cases h : t.pending v.id with
  | none => rfl
  | some payload =>
    have hflow : (m.turn (t.context m r) v payload).1 =
        outflow settings (t.context m r) (t.graph.outDegreeOf v.id)
          (Decomposition.arriving settings (t.context m r) v.id payload) := by
      have hdegree : v.outDegree = t.graph.outDegreeOf v.id :=
        congrArg List.length (Graph.targets_vertex hv)
      rw [Machine.turn, hp, ← hdegree]
      exact settle_fst ..
    simp only [hc, hflow, hp, signals_program, Vertex.targets_withValues, Graph.targets_vertex hv]
    rw [Option.map_some, Option.filter_some]
    by_cases hempty : (outflow settings (t.context m r) (t.graph.outDegreeOf v.id)
        (Decomposition.arriving settings (t.context m r) v.id payload)).isEmpty = true
    · simp [hempty]
    · simp [hempty]

/-- What is pending behind a round: what the sources broadcast. -/
theorem pending_round (hp : m.program = Decomposition.program settings)
    (hc : ∀ flow, m.carry flow = flow) (v : VertexId) :
    (t.round m r).pending v = mergeAllInto Payload.merge none
      ((t.graph.sourcesOf v).filterMap (sends settings t (t.context m r))) := by
  rw [Tableau.pending_round, sent_eq hp hc, Graph.arrivals_broadcast t.finalized]

theorem pending_round_of_le (hp : m.program = Decomposition.program settings)
    (hc : ∀ flow, m.carry flow = flow) {v : VertexId} (h : t.graph.numVertices ≤ v.toNat) :
    (t.round m r).pending v = none := by
  have hsources : t.graph.sourcesOf v = [] := List.eq_nil_iff_forall_not_mem.2 fun u hu =>
    Nat.not_lt.2 h (t.graph.edges_below _ (Graph.mem_sourcesOf.1 hu)).2
  rw [pending_round hp hc, hsources]
  rfl

/-- Nothing is pending behind the last round. -/
theorem pending_round_of_isLastRound (hp : m.program = Decomposition.program settings)
    (hc : ∀ flow, m.carry flow = flow) (hlast : m.maxRounds ≤ r + 1) (v : VertexId) :
    (t.round m r).pending v = none := by
  have hnone : sends settings t (t.context m r) = fun _ => none := by
    funext u
    have : (t.context m r).isLastRound = true := decide_eq_true hlast
    rw [sends]
    simp only [outflow, this, if_true]
    cases t.pending u <;> rfl
  rw [pending_round hp hc, hnone, List.filterMap_none]
  rfl

/-! ### One round -/

/-- The weight of a source in the flow at a vertex when a round starts. -/
def arrivingAt (settings : FlowSettings W) (t : Tableau (VertexState W) (Sparse W)) (c : Context)
    (s v : VertexId) : Option W :=
  (t.pending v).bind fun payload => (Decomposition.arriving settings c v payload).get? s

omit [JsonWeight W] in
/-- What of a source is at a vertex when a round starts. -/
theorem arriving_strandOf (m : Machine (Sparse W) (VertexState W) (Sparse W) Unit) {u : VertexId}
    (hu : u.toNat < t.graph.numVertices) (awake : r = 0 → t.pending u ≠ none) (s : VertexId) :
    (strandOf s t).arriving (seedOf settings t.graph s) r u =
      arrivingAt settings t (t.context m r) s u := by
  rw [Strand.arriving, arrivingAt]
  cases h : t.pending u with
  | none =>
    rw [if_neg fun hr => awake hr h, pending_strandOf, h, Option.bind_none, Option.bind_none]
  | some payload =>
    have hc : (t.context m r).round = r := rfl
    rw [Option.bind_some, get?_arriving settings hu, hc, pending_strandOf, h, Option.bind_some]

omit [JsonWeight W] in
/-- What of a source a vertex broadcasts. -/
theorem get?_sends {u : VertexId} (hu : u.toNat < t.graph.numVertices)
    (awake : r = 0 → t.pending u ≠ none) (hlast : ¬ m.maxRounds ≤ r + 1) (s : VertexId) :
    (sends settings t (t.context m r) u).bind (·.get? s) =
      (strandOf s t).passed settings t.graph (seedOf settings t.graph s) r u := by
  have hround : (t.context m r).isLastRound = false := decide_eq_false hlast
  rw [sends, VertexMap.bind_filter_isEmpty, Strand.passed, arriving_strandOf m hu awake, arrivingAt]
  cases h : t.pending u with
  | none => rfl
  | some payload =>
    rw [Option.map_some, Option.bind_some, outflow, if_neg (by simp [hround]), get?_passed,
      Option.bind_some]

/-- The value of a vertex behind a round. -/
theorem valueBehind_eq (hp : m.program = Decomposition.program settings)
    (v : Vertex (VertexState W)) :
    t.valueBehind m r v = (t.pending v.id).elim v.value fun payload =>
      (Decomposition.settle settings (t.context m r) v.site
        (Decomposition.arriving settings (t.context m r) v.id payload) v.value).2 := by
  rw [Tableau.valueBehind]
  cases t.pending v.id with
  | none => rfl
  | some payload =>
    simp only [Machine.turn, hp]
    rfl

/-- A decomposition does not touch page-rank vectors. -/
theorem ppr_valueBehind (hp : m.program = Decomposition.program settings)
    (v : Vertex (VertexState W)) : (t.valueBehind m r v).ppr = v.value.ppr := by
  rw [valueBehind_eq hp]
  cases t.pending v.id with
  | none => rfl
  | some payload =>
    rw [Option.elim_some, Decomposition.settle]
    split <;> rfl

/-- What the vertex retains, and what stops there in the last round. -/
theorem get?_valueBehind (hp : m.program = Decomposition.program settings)
    (v : Vertex (VertexState W)) (s : VertexId) :
    (t.valueBehind m r v).residual.get? s =
        (if m.maxRounds ≤ r + 1 then v.value.residual.get? s
          else Sparse.added (v.value.residual.get? s)
            ((arrivingAt settings t (t.context m r) s v.id).map (settings.resetProb * ·))) ∧
      (t.valueBehind m r v).flow.get? s =
        if m.maxRounds ≤ r + 1 then Sparse.added (v.value.flow.get? s)
            (arrivingAt settings t (t.context m r) s v.id)
          else v.value.flow.get? s := by
  rw [valueBehind_eq hp, arrivingAt]
  cases t.pending v.id with
  | none => simp [Sparse.added]
  | some payload =>
    rw [Option.elim_some, Option.bind_some, Decomposition.settle]
    by_cases hlast : m.maxRounds ≤ r + 1
    · have : (t.context m r).isLastRound = true := decide_eq_true hlast
      simp only [this, hlast, if_true, Sparse.get?_merge_eq_added, and_self]
    · have : (t.context m r).isLastRound = false := decide_eq_false hlast
      simp only [this, hlast, if_false, Bool.false_eq_true, Sparse.get?_merge_eq_added,
        get?_retained, and_self]

omit [JsonWeight W] in
/-- Nothing of a source is at a vertex beyond the graph. -/
theorem arriving_of_le (bounded : ∀ v, t.graph.numVertices ≤ v.toNat → t.pending v = none)
    {v : VertexId} (hv : t.graph.numVertices ≤ v.toNat) (s : VertexId) :
    (strandOf s t).arriving (seedOf settings t.graph s) r v = none := by
  have hseed : seedOf settings t.graph s ≠ some v := by
    rw [seedOf]
    split
    · rename_i h
      rintro ⟨⟩
      exact Nat.not_lt.2 hv h.2
    · simp
  rw [Strand.arriving, if_neg hseed, pending_strandOf, bounded v hv, Option.bind_none, ite_self]

section Strands

variable (hp : m.program = Decomposition.program settings) (hc : ∀ flow, m.carry flow = flow)
  (awake : r = 0 → ∀ v, v.toNat < t.graph.numVertices → t.pending v ≠ none)
include hp awake

include hc in
theorem pending_strandOf_round (law : ∀ w, settings.threshold < w → Sparse.FromZero w)
    (s : VertexId) :
    (strandOf s (t.round m r)).pending =
      ((strandOf s t).next settings t.graph (seedOf settings t.graph s) r m.maxRounds).pending := by
  funext v
  by_cases hlast : m.maxRounds ≤ r + 1
  · rw [pending_strandOf, pending_round_of_isLastRound hp hc hlast, Strand.next, if_pos hlast]
    rfl
  · have hsends : ∀ u ∈ t.graph.sourcesOf v,
        (sends settings t (t.context m r) u).bind (·.get? s) =
          (strandOf s t).passed settings t.graph (seedOf settings t.graph s) r u := fun u hu =>
      get?_sends (Graph.lt_of_mem_sourcesOf hu) (awake · u (Graph.lt_of_mem_sourcesOf hu)) hlast s
    rw [pending_strandOf, pending_round hp hc, Sparse.get?_mergeAllInto, List.filterMap_filterMap,
      List.filterMap_congr hsends, Strand.next, if_neg hlast]
    · rfl
    · -- what is passed on lies above the threshold
      intro payload hpayload w hw
      obtain ⟨u, hu, hpayload⟩ := List.mem_filterMap.1 hpayload
      have hpassed := hsends u hu
      rw [hpayload, Option.bind_some, hw, Strand.passed] at hpassed
      exact law w (by simpa using (Option.filter_eq_some_iff.1 hpassed.symm).2)

theorem values_strandOf_round
    (bounded : ∀ v, t.graph.numVertices ≤ v.toNat → t.pending v = none) (s v : VertexId) :
    (strandOf s (t.round m r)).residual v = ((strandOf s t).next settings t.graph
      (seedOf settings t.graph s) r m.maxRounds).residual v ∧
    (strandOf s (t.round m r)).flow v = ((strandOf s t).next settings t.graph
      (seedOf settings t.graph s) r m.maxRounds).flow v := by
  rw [residual_strandOf, flow_strandOf]
  by_cases hv : v.toNat < t.graph.numVertices
  · obtain ⟨v, hn, rfl⟩ := Graph.exists_vertex t.finalized hv
    obtain ⟨hresidual, hflow⟩ := get?_valueBehind (t := t) (m := m) (r := r) hp v s
    rw [← arriving_strandOf m hv (awake · v.id hv)] at hresidual hflow
    have hvalue : t.graph.value? v.id = some v.value := Graph.value?_eq_value hn
    rw [t.value?_round m r hn, Option.bind_some, Option.bind_some, hresidual, hflow, Strand.next]
    by_cases hlast : m.maxRounds ≤ r + 1
    · simp only [if_pos hlast, residual_strandOf, flow_strandOf, hvalue, Option.bind_some, and_self]
    · simp only [if_neg hlast, residual_strandOf, flow_strandOf, hvalue, Option.bind_some, and_self]
  · have hle := Nat.le_of_not_lt hv
    have hvalue : t.graph.value? v = none := Graph.value?_of_le hle
    have hvalue' : (t.round m r).graph.value? v = none :=
      Graph.value?_of_le (by rwa [Tableau.graph_round, Graph.numVertices_overwrite])
    rw [hvalue', Strand.next]
    by_cases hlast : m.maxRounds ≤ r + 1
    · simp [hlast, residual_strandOf, flow_strandOf, hvalue, arriving_of_le bounded hle,
        Sparse.added]
    · simp [hlast, residual_strandOf, flow_strandOf, hvalue, arriving_of_le bounded hle,
        Sparse.added]

/-- **A round of the decomposition is a round of each of its strands.** -/
theorem strandOf_round (law : ∀ w, settings.threshold < w → Sparse.FromZero w)
    (hc : ∀ flow, m.carry flow = flow)
    (bounded : ∀ v, t.graph.numVertices ≤ v.toNat → t.pending v = none) (s : VertexId) :
    strandOf s (t.round m r) =
      (strandOf s t).next settings t.graph (seedOf settings t.graph s) r m.maxRounds :=
  Strand.ext (pending_strandOf_round hp hc awake law s)
    (funext fun v => (values_strandOf_round hp awake bounded s v).1)
    (funext fun v => (values_strandOf_round hp awake bounded s v).2)

end Strands

end Round

end Superstep.PageRank
