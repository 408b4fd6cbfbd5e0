import Superstep.Proofs.PageRank.Spread

/-!
# Flow travels along walks

A vertex that is seeded starts its flow in round zero, and every further round takes the flow over
one edge. So what is pending after `r` rounds has come along a walk of exactly `r` edges, what a
vertex retained along a shorter one, and what stopped at a vertex in the last round along one that
is as long as there were rounds before it. Rounds end when flow has nowhere left to go, and on a
graph without long walks that is soon.

None of this is about how much flow there is. It holds for any weights, infinite and undefined ones
included, for any number of workers in any order, and for flow that is parked between the phases.

## Main definitions

* `Graph.Walk`: walks with a given number of edges
* `FlowsAlongWalks`: what the entries of a tableau say about walks

## Main results

* `Underway.round`: one round
* `flow_travels_along_walks`: all rounds of a decomposition, and how many there are
-/

namespace Superstep

/-- A directed walk with a number of edges, from one vertex to another. -/
inductive Graph.Walk {D : Type} (g : Graph D) : Nat → VertexId → VertexId → Prop
  | nil (v : VertexId) : Walk g 0 v v
  | snoc {k : Nat} {u v w : VertexId} (walk : Walk g k u v) (edge : ⟨v, w⟩ ∈ g.edges.toList) :
      Walk g (k + 1) u w

namespace PageRank

/-! ### Rounds in terms of walks -/

section Rounds

variable {W : Type} [Weight W] {settings : FlowSettings W} {g : Graph (VertexState W)}
  {cap r : Nat} {t t' : Tableau (VertexState W) (Sparse W)}

/-- The source is a seeded vertex, and a walk of that many edges leads from it to the vertex. -/
structure Reaches (settings : FlowSettings W) (g : Graph (VertexState W)) (k : Nat)
    (s v : VertexId) : Prop where
  seeded : settings.isSeeded s = true
  inside : s.toNat < g.numVertices
  walk : g.Walk k s v

/-- Where the entries of a tableau come from that stands behind `r` rounds, with at most `cap` of
them to be made. -/
structure FlowsAlongWalks (settings : FlowSettings W) (g : Graph (VertexState W)) (cap r : Nat)
    (t : Tableau (VertexState W) (Sparse W)) : Prop where
  /-- Pending flow has come over one edge in each round. -/
  pending : ∀ v payload s, t.pending v = some payload → payload.get? s ≠ none →
    Reaches settings g r s v
  /-- Behind a round no vertex is signalled without flow. -/
  nonempty : 1 ≤ r → ∀ v payload, t.pending v = some payload → payload.isEmpty = false
  /-- What a vertex retained came by before. -/
  residual : ∀ v value s, t.graph.value? v = some value → value.residual.get? s ≠ none →
    ∃ k, k + 1 ≤ r ∧ Reaches settings g k s v
  /-- Flow stops in the last round. -/
  flow : ∀ v value s, t.graph.value? v = some value → value.flow.get? s ≠ none →
    r = cap ∧ ∃ k, k + 1 = r ∧ Reaches settings g k s v
  /-- Behind the last round nothing is pending. -/
  last : r = cap → 1 ≤ r → t.IsQuiet

/-- A tableau on the way through the rounds of a decomposition. -/
structure Underway (settings : FlowSettings W) (g : Graph (VertexState W)) (cap r : Nat)
    (t : Tableau (VertexState W) (Sparse W)) : Prop where
  walks : FlowsAlongWalks settings g cap r t
  edges : t.graph.edges = g.edges
  size : t.graph.numVertices = g.numVertices
  /-- Every round that was made found flow at the end of a walk. -/
  walked : ∀ k, k + 1 = r → ∃ s v, g.Walk k s v

/-- What is at a vertex when a round starts has come there along a walk. -/
theorem Underway.reaches (h : Underway settings g cap r t)
    {m : Machine (Sparse W) (VertexState W) (Sparse W) Unit} {s v : VertexId}
    (hv : v.toNat < t.graph.numVertices)
    (harriving : arrivingAt settings t (t.context m r) s v ≠ none) :
    Reaches settings g r s v := by
  obtain ⟨payload, hpending, hentry⟩ : ∃ payload, t.pending v = some payload ∧
      (if r = 0 then if seedOf settings t.graph s = some v then some 1 else none
        else payload.get? s) ≠ none := by
    rw [arrivingAt_eq hv] at harriving
    cases hpending : t.pending v with
    | none =>
      rw [hpending] at harriving
      exact absurd rfl harriving
    | some payload =>
      rw [hpending] at harriving
      exact ⟨payload, rfl, harriving⟩
  by_cases hr : r = 0
  · subst hr
    rw [if_pos rfl, seedOf] at hentry
    by_cases hseed : settings.isSeeded s = true ∧ s.toNat < t.graph.numVertices
    · rw [if_pos hseed] at hentry
      have hsv : s = v := by
        by_contra hne
        exact hentry (if_neg fun h => hne (Option.some.inj h))
      subst hsv
      exact ⟨hseed.1, h.size ▸ hseed.2, .nil s⟩
    · rw [if_neg hseed] at hentry
      exact absurd rfl hentry
  · rw [if_neg hr] at hentry
    exact h.walks.pending v payload s hpending hentry

omit [Weight W] in
/-- A round is only made if flow has come to the end of a walk. -/
theorem Underway.exists_walk (h : Underway settings g cap r t) (active : ¬ t.IsQuiet) :
    ∃ s v, g.Walk r s v := by
  obtain ⟨v, hv⟩ := not_forall.1 active
  obtain ⟨payload, hv⟩ := Option.ne_none_iff_exists'.1 hv
  by_cases hr : r = 0
  · exact ⟨v, v, hr ▸ .nil v⟩
  · have hnonempty := h.walks.nonempty (Nat.one_le_iff_ne_zero.2 hr) v payload hv
    obtain ⟨s, hs⟩ : ∃ s, payload.get? s ≠ none := by
      by_contra hnone
      refine Bool.false_ne_true (hnonempty.symm.trans (VertexMap.isEmpty_iff.2 fun s => ?_))
      by_contra hs
      exact hnone ⟨s, hs⟩
    exact ⟨s, v, (h.walks.pending v payload s hv hs).walk⟩

variable [JsonWeight W] {m : Machine (Sparse W) (VertexState W) (Sparse W) Unit}

/-- What stands at a vertex behind a round was there before or has arrived in it. -/
theorem Underway.entries_round (h : Underway settings g cap r t)
    (hp : m.program = Decomposition.program settings) (hcap : m.maxRounds = cap)
    (more : r < cap) {v : VertexId} {value' : VertexState W}
    (hv : (t.round m r).graph.value? v = some value') (s : VertexId) :
    (value'.residual.get? s ≠ none → ∃ k, k + 1 ≤ r + 1 ∧ Reaches settings g k s v) ∧
      (value'.flow.get? s ≠ none → r + 1 = cap ∧ Reaches settings g r s v) := by
  obtain ⟨value, hold, -, hentries⟩ := exists_value_of_round hp hv
  obtain ⟨hresidual, hflow⟩ := hentries s
  rw [hcap] at hresidual hflow
  have hreaches : arrivingAt settings t (t.context m r) s v ≠ none → Reaches settings g r s v :=
    h.reaches (Graph.lt_of_value? hold)
  -- nothing has stopped anywhere before the last round
  have hnone : value.flow.get? s = none := by
    by_contra hs
    exact Nat.ne_of_lt more (h.walks.flow v value s hold hs).1
  constructor
  · intro hs
    have hcases : value.residual.get? s ≠ none ∨
        arrivingAt settings t (t.context m r) s v ≠ none := by
      rw [hresidual] at hs
      split at hs
      · exact .inl hs
      · refine (Sparse.added_ne_none.1 hs).imp_right fun hmap hnone => hmap ?_
        rw [hnone, Option.map_none]
    rcases hcases with hs | hs
    · obtain ⟨k, hk, hreaches⟩ := h.walks.residual v value s hold hs
      exact ⟨k, Nat.le_succ_of_le hk, hreaches⟩
    · exact ⟨r, Nat.le_refl _, hreaches hs⟩
  · intro hs
    rw [hflow, hnone] at hs
    split at hs
    · rename_i hlast
      have harriving := (Sparse.added_ne_none.1 hs).resolve_left fun hne => hne rfl
      exact ⟨Nat.le_antisymm more hlast, hreaches harriving⟩
    · exact absurd rfl hs

/-- **A round takes flow over one edge**, leaves some of it behind, and is not made without any. -/
theorem Underway.round (h : Underway settings g cap r t)
    (hp : m.program = Decomposition.program settings) (hc : ∀ flow, m.carry flow = flow)
    (hcap : m.maxRounds = cap) (more : r < cap) (active : ¬ t.IsQuiet)
    (follows : t.MayFollow m r t') : Underway settings g cap (r + 1) t' := by
  have hsource := fun v payload (hv : t'.pending v = some payload) =>
    exists_source_of_pending hp hc follows hv
  rw [hcap] at hsource
  have hentries := fun v value' (hv : t'.graph.value? v = some value') =>
    h.entries_round hp hcap more (follows.graph ▸ hv)
  constructor
  · constructor
    · intro v payload s hv hs
      obtain ⟨u, hu, harriving⟩ := (hsource v payload hv).2.2 s hs
      obtain ⟨seeded, inside, walk⟩ := h.reaches (Graph.lt_of_mem_sourcesOf hu) harriving
      exact ⟨seeded, inside, walk.snoc (h.edges ▸ Graph.mem_sourcesOf.1 hu)⟩
    · intro _ v payload hv
      exact (hsource v payload hv).2.1
    · intro v value' s hv
      exact (hentries v value' hv s).1
    · intro v value' s hv hs
      obtain ⟨hlast, hreaches⟩ := (hentries v value' hv s).2 hs
      exact ⟨hlast, r, rfl, hreaches⟩
    · intro hlast _ v
      by_contra hv
      obtain ⟨payload, hv⟩ := Option.ne_none_iff_exists'.1 hv
      exact (hsource v payload hv).1 (Nat.le_of_eq hlast.symm)
  · rw [follows.graph, ← h.edges]
    rfl
  · rw [follows.graph, Tableau.graph_round, Graph.numVertices_overwrite, h.size]
  · intro k hk
    obtain rfl := Nat.succ.inj hk
    exact h.exists_walk active

omit [Weight W] [JsonWeight W] in
/-- As many rounds are made as the longest walk has edges, and one more. -/
theorem Underway.round_le (h : Underway settings g cap r t) {longest : Nat}
    (bound : ∀ k s v, g.Walk k s v → k ≤ longest) : r ≤ longest + 1 := by
  cases r with
  | zero => exact Nat.zero_le _
  | succ k =>
    obtain ⟨s, v, walk⟩ := h.walked k rfl
    exact Nat.succ_le_succ (bound k s v walk)

end Rounds

/-! ### The engine -/

section Engine

variable {settings : FlowSettings Binary64} {options : EngineOptions}
  {g : Graph (VertexState Binary64)}
  {e : Engine (Sparse Binary64) (VertexState Binary64) (Sparse Binary64) Unit}

/-- With every vertex signalled, and nothing else done, flow has not left its sources. -/
theorem underway_signalAll (hf : g.finalized = true) (fresh : IsFresh g)
    (new : Engine.create (Decomposition.program settings) VertexMap.empty g.numVertices options =
      .ok e) (cap : Nat) : Underway settings g cap 0 (e.signalAll.tableau g hf) := by
  refine ⟨⟨?_, nofun, ?_, ?_, nofun⟩, rfl, rfl, nofun⟩
  · intro v payload s hv hs
    rw [pending_signalAll new] at hv
    split at hv
    · obtain rfl := Option.some.inj hv
      exact absurd (VertexMap.get?_empty s) hs
    · cases hv
  · intro v value s hv hs
    exact absurd (fresh.get?_residual hv s) hs
  · intro v value s hv hs
    exact absurd (fresh.get?_flow hv s) hs

/-- **Flow travels along walks, one edge in each round.** On a graph in which nothing has flowed
yet, a new engine with every vertex signalled goes through rounds behind which pending flow has come
along a walk of as many edges, what was retained along a shorter one, and what stopped along the
longest that the cap allows; wherever steps lead to, under any schedules. So on a graph without
walks of more than `longest` edges a run completes at most one round more than that. If states are
not parked, it cannot fail. -/
theorem flow_travels_along_walks (hf : g.finalized = true) (fresh : IsFresh g)
    (new : Engine.create (Decomposition.program settings) VertexMap.empty g.numVertices options =
      .ok e) :
    (∀ e' g', Engine.Proceeds e.signalAll g e' g' → ∃ hf' : g'.finalized = true,
      FlowsAlongWalks settings g options.maxRounds e'.round (e'.tableau g' hf')) ∧
    ∀ longest, (∀ k s v, g.Walk k s v → k ≤ longest) → ∀ schedules,
      (e.signalAll.run g schedules).engine.round ≤ longest + 1 ∧
        (∀ summary, (e.signalAll.run g schedules).result = .ok summary →
          summary.rounds ≤ longest + 1) ∧
        (options.persist = false →
          ∃ summary, (e.signalAll.run g schedules).result = .ok summary) := by
  have start := underway_signalAll hf fresh new options.maxRounds
  have ready : Engine.Prepared e.signalAll g :=
    (Engine.Prepared.of_create hf new (onlyScatters_program settings) (staysInside_program settings)
      fun _ => parks_program settings VertexMap.empty).of_sameShape (Engine.sameShape_signalAll e)
        hf rfl
  have heq := Engine.eq_ofProgram_of_create new
  have hround : e.signalAll.round = 0 := by
    rw [heq]
    rfl
  have hoptions : e.signalAll.options = options := by
    rw [heq]
    rfl
  have hprogram : e.signalAll.ideal.program = Decomposition.program settings := by
    rw [heq]
    rfl
  have hcap : e.signalAll.ideal.maxRounds = options.maxRounds :=
    congrArg EngineOptions.maxRounds hoptions
  have hall : ∀ e' g', Engine.Proceeds e.signalAll g e' g' → ∃ hf' : g'.finalized = true,
      Underway settings g options.maxRounds e'.round (e'.tableau g' hf') := by
    intro e' g' h
    obtain ⟨next, -, hunderway⟩ := ready.of_proceeds (hround ▸ start)
      (fun r t t' cap active hr follows =>
        hr.round hprogram (fun _ => rfl) hcap (hcap ▸ cap) active follows) h
    exact ⟨next.finalized, hunderway⟩
  refine ⟨fun e' g' h => ?_, fun longest bound schedules => ?_⟩
  · obtain ⟨hf', hunderway⟩ := hall e' g' h
    exact ⟨hf', hunderway.walks⟩
  · have hle : (e.signalAll.run g schedules).engine.round ≤ longest + 1 := by
      obtain ⟨e', g', h, hend, -⟩ := Engine.exists_proceeds_runRounds e.signalAll g schedules
      obtain ⟨hf', hunderway⟩ := hall e' g' h
      exact Nat.le_trans (Nat.le_of_eq hend) (hunderway.round_le bound)
    refine ⟨hle, fun summary hsummary => ?_, fun persist => ?_⟩
    · rw [Engine.rounds_of_run hsummary, hround]
      exact hle
    · have hok := ready.runRounds_ok (Engine.carries_of_persist (hoptions ▸ persist)) schedules
      exact ⟨_, congrArg (Except.map _) hok⟩

end Engine

/-- Three vertices in a row. -/
def relay : Graph (VertexState Binary64) where
  edges := #[⟨0, 1⟩, ⟨1, 2⟩]
  topology := Topology.ofEdges 3 [⟨0, 1⟩, ⟨1, 2⟩] (by simp [EdgesBelow])
  data := #[{}, {}, {}]
  finalized := true
  edges_below := by simp [EdgesBelow]
  size_le := Nat.le_of_ble_eq_true rfl
  topology_eq _ := rfl
  edges_ascending _ := by decide

theorem walk_relay {k : Nat} {s v : VertexId} (walk : relay.Walk k s v) :
    s.toNat + k = v.toNat ∧ (k = 0 ∨ v.toNat ≤ 2) := by
  induction walk with
  | nil => exact ⟨rfl, .inl rfl⟩
  | @snoc k u v w _ edge ih =>
    have hedge : v = 0 ∧ w = 1 ∨ v = 1 ∧ w = 2 := by
      simpa [relay] using edge
    have hnumbers : w.toNat = v.toNat + 1 ∧ w.toNat ≤ 2 := by
      rcases hedge with ⟨rfl, rfl⟩ | ⟨rfl, rfl⟩ <;> decide
    omega

/-- Every vertex starts flow. -/
def relaySettings : FlowSettings Binary64 := ⟨1 / (2 : Nat), 0, none⟩

/-- Two workers share the vertices. -/
def relayEngine : Engine (Sparse Binary64) (VertexState Binary64) (Sparse Binary64) Unit :=
  Engine.ofProgram (Decomposition.program relaySettings) VertexMap.empty 3 ⟨9, 2, false⟩

/-- Flow is under way behind the first round, and has nowhere to go behind the third. -/
theorem flow_travels_along_walks_relay :
    let first := relayEngine.signalAll.step relay ⟨[1], [], [1]⟩
    (∃ hf : first.graph.finalized = true,
      FlowsAlongWalks relaySettings relay 9 1 (first.engine.tableau first.graph hf)) ∧
      ∃ summary, (relayEngine.signalAll.run relay fun _ => ⟨[1], [], [1]⟩).result = .ok summary ∧
        summary.rounds ≤ 3 := by
  intro first
  have new : Engine.create (Decomposition.program relaySettings) VertexMap.empty
      relay.numVertices ⟨9, 2, false⟩ = .ok relayEngine := rfl
  obtain ⟨walks, rounds⟩ := flow_travels_along_walks (g := relay) rfl (by simp [IsFresh, relay]) new
  have hround : first.engine.round = 1 := by decide +kernel
  have hresult : first.result = .ok true := by decide +kernel
  have bound : ∀ k s v, relay.Walk k s v → k ≤ 2 := by
    intro k s v walk
    have := walk_relay walk
    omega
  obtain ⟨-, hle, hok⟩ := rounds 2 bound fun _ => ⟨[1], [], [1]⟩
  obtain ⟨summary, hsummary⟩ := hok rfl
  exact ⟨hround ▸ walks _ _ (Engine.Proceeds.refl.step _ hresult), summary, hsummary,
    hle summary hsummary⟩

end PageRank

end Superstep
