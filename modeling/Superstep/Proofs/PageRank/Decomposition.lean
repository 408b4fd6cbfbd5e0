import Superstep.Proofs.Engine.Start
import Superstep.Proofs.PageRank.Strand

/-!
# A whole decomposition

A decomposition starts on a graph in which nothing has flowed yet, with every vertex signalled. Its
rounds leave the edges and the page-rank vectors alone, and every source has the strand that
`Strand.rounds` computes from nothing.

## Main results

* `strandOf_rounds`: the strands behind any number of rounds
* `Strand.rounds_none`: what is not seeded does not flow
* `decomposed_of_create`: what an engine makes of a fresh graph
-/

namespace Superstep.PageRank

variable {W : Type} [Weight W]

/-- The strand of which nothing is anywhere. -/
def Strand.idle : Strand W := ⟨fun _ => none, fun _ => none, fun _ => none⟩

/-- A graph in which nothing has flowed yet. -/
def IsFresh (g : Graph (VertexState W)) : Prop :=
  ∀ value ∈ g.data, value.flow = VertexMap.empty ∧ value.residual = VertexMap.empty

section Fresh

variable {g : Graph (VertexState W)} (fresh : IsFresh g) {v : VertexId} {value : VertexState W}
  (hv : g.value? v = some value)
include fresh hv

omit [Weight W] in
theorem IsFresh.get?_flow (s : VertexId) : value.flow.get? s = none := by
  rw [(fresh value (Array.mem_of_getElem? hv)).1]
  exact VertexMap.get?_empty s

omit [Weight W] in
theorem IsFresh.get?_residual (s : VertexId) : value.residual.get? s = none := by
  rw [(fresh value (Array.mem_of_getElem? hv)).2]
  exact VertexMap.get?_empty s

end Fresh

/-- What the rounds of a decomposition leave as it is. -/
structure Follows (t t' : Tableau (VertexState W) (Sparse W)) : Prop where
  edges : t'.graph.edges = t.graph.edges
  size : t'.graph.numVertices = t.graph.numVertices
  ppr : ∀ v, (t'.graph.value? v).map VertexState.ppr = (t.graph.value? v).map VertexState.ppr

omit [Weight W] in
theorem Follows.refl (t : Tableau (VertexState W) (Sparse W)) : Follows t t :=
  ⟨rfl, rfl, fun _ => rfl⟩

omit [Weight W] in
theorem Follows.trans {t t' t'' : Tableau (VertexState W) (Sparse W)} (h : Follows t t')
    (h' : Follows t' t'') : Follows t t'' :=
  ⟨h'.edges.trans h.edges, h'.size.trans h.size, fun v => (h'.ppr v).trans (h.ppr v)⟩

/-- Without a seed nothing ever flows. -/
theorem Strand.rounds_none {D : Type} (settings : FlowSettings W) (g : Graph D) (cap k : Nat) :
    Strand.idle.rounds settings g none cap k = Strand.idle := by
  have harriving : ∀ r, Strand.idle.arriving none r = fun _ : VertexId => (none : Option W) := by
    intro r
    funext v
    simp [arriving, idle]
  have hpassed : ∀ r, Strand.idle.passed settings g none r =
      fun _ : VertexId => (none : Option W) := by
    intro r
    funext u
    rw [passed, harriving]
    rfl
  induction k with
  | zero => rfl
  | succ k ih =>
    rw [rounds, ih, next, harriving, hpassed]
    split
    · rfl
    · simp only [List.filterMap_none]
      rfl

/-- A round of a strand looks at the edges of the graph and at two numbers of the settings. -/
theorem Strand.next_congr {D : Type} {settings settings' : FlowSettings W} {g g' : Graph D}
    (hedges : g'.edges = g.edges) (hreset : settings'.resetProb = settings.resetProb)
    (hthreshold : settings'.threshold = settings.threshold) (seed : Option VertexId)
    (σ : Strand W) (r cap : Nat) :
    σ.next settings' g' seed r cap = σ.next settings g seed r cap := by
  have hsources : g'.sourcesOf = g.sourcesOf := by
    funext v
    rw [Graph.sourcesOf, hedges, ← Graph.sourcesOf]
  have hdegree : g'.outDegreeOf = g.outDegreeOf := by
    funext u
    rw [Graph.outDegreeOf, Graph.targetsOf, hedges, ← Graph.targetsOf, ← Graph.outDegreeOf]
  have hshare : Decomposition.passedShare settings' = Decomposition.passedShare settings := by
    funext outDegree
    simp only [Decomposition.passedShare, hreset]
  have hpassed : σ.passed settings' g' seed r = σ.passed settings g seed r := by
    funext u
    rw [passed, passed, hdegree, hshare, hthreshold]
  rw [next, next, hsources, hpassed, hreset]

section Rounds

variable [JsonWeight W] {settings : FlowSettings W} {t : Tableau (VertexState W) (Sparse W)}
  {m : Machine (Sparse W) (VertexState W) (Sparse W) Unit}

theorem follows_round (hp : m.program = Decomposition.program settings) (r : Nat) :
    Follows t (t.round m r) where
  edges := rfl
  size := Graph.numVertices_overwrite ..
  ppr v := by
    by_cases hv : v.toNat < t.graph.numVertices
    · obtain ⟨v, hn, rfl⟩ := Graph.exists_vertex t.finalized hv
      rw [t.value?_round m r hn, Graph.value?_eq_value hn, Option.map_some, Option.map_some,
        ppr_valueBehind hp]
    · have hle := Nat.le_of_not_lt hv
      rw [Graph.value?_of_le hle, Graph.value?_of_le]
      rwa [Tableau.graph_round, Graph.numVertices_overwrite]

theorem follows_rounds (hp : m.program = Decomposition.program settings) (k : Nat) :
    Follows t (t.rounds m 0 k) := by
  induction k with
  | zero => exact .refl t
  | succ k ih => exact ih.trans (follows_round hp _)

variable (hp : m.program = Decomposition.program settings) (hc : ∀ flow, m.carry flow = flow)
  (bounded : ∀ v, t.graph.numVertices ≤ v.toNat → t.pending v = none)
include hp hc bounded

theorem pending_rounds_of_le {v : VertexId} (hv : t.graph.numVertices ≤ v.toNat) (k : Nat) :
    (t.rounds m 0 k).pending v = none := by
  cases k with
  | zero => exact bounded v hv
  | succ k =>
    refine pending_round_of_le hp hc ?_
    rwa [(follows_rounds hp k).size]

/-- **Every source has its strand**, behind any number of rounds. -/
theorem strandOf_rounds (law : ∀ w, settings.threshold < w → Sparse.FromZero w)
    (awake : ∀ v, v.toNat < t.graph.numVertices → t.pending v ≠ none) (s : VertexId) (k : Nat) :
    strandOf s (t.rounds m 0 k) = (strandOf s t).rounds settings t.graph
      (seedOf settings t.graph s) m.maxRounds k := by
  induction k with
  | zero => rfl
  | succ k ih =>
    have hfollows := follows_rounds (t := t) hp k
    have hseed : seedOf settings (t.rounds m 0 k).graph s = seedOf settings t.graph s := by
      rw [seedOf, hfollows.size, seedOf]
    rw [Tableau.rounds, Strand.rounds, ← ih, Nat.zero_add, strandOf_round hp _ law hc, hseed,
      Strand.next_congr hfollows.edges rfl rfl]
    · rw [hfollows.size]
      exact fun v hv => pending_rounds_of_le hp hc bounded hv k
    · rintro rfl
      exact awake

end Rounds

/-! ### The engine -/

/-- Flow comes back from its bytes as it was. -/
def Restores (W : Type) [JsonWeight W] : Prop :=
  ∀ flow : Sparse W, Sparse.ofText (Text.encode flow.toJson.render) = .ok flow

theorem kept_program [JsonWeight W] {settings : FlowSettings W} {persist : Bool}
    (restores : persist = true → Restores W) (prototype flow : Sparse W) :
    (Decomposition.program settings).kept persist prototype flow = .ok flow := by
  cases persist with
  | false => rfl
  | true =>
    have h := restores rfl flow
    simp [VertexProgram.kept, Decomposition.program, h, Except.bind, Except.mapError]

/-- What a decomposition of `cap` rounds makes of a fresh graph. -/
structure Decomposed (settings : FlowSettings W) (cap : Nat) (g g' : Graph (VertexState W)) :
    Prop where
  finalized : g'.finalized = true
  edges : g'.edges = g.edges
  size : g'.numVertices = g.numVertices
  ppr : ∀ v, (g'.value? v).map VertexState.ppr = (g.value? v).map VertexState.ppr
  residual : ∀ s v, (g'.value? v).bind (·.residual.get? s) =
    (Strand.idle.rounds settings g (seedOf settings g s) cap cap).residual v
  flow : ∀ s v, (g'.value? v).bind (·.flow.get? s) =
    (Strand.idle.rounds settings g (seedOf settings g s) cap cap).flow v

omit [Weight W] in
theorem seedOf_eq_none {D : Type} {settings : FlowSettings W} {g : Graph D} {s : VertexId}
    (h : ¬ (settings.isSeeded s = true ∧ s.toNat < g.numVertices)) :
    seedOf settings g s = none := by
  rw [seedOf, if_neg h]

/-- What is not seeded leaves no entry anywhere. -/
theorem Decomposed.absent {settings : FlowSettings W} {cap : Nat}
    {g g' : Graph (VertexState W)} (h : Decomposed settings cap g g') {key : VertexId}
    (hkey : seedOf settings g key = none) (v : VertexId) :
    (g'.value? v).bind (·.residual.get? key) = none ∧
      (g'.value? v).bind (·.flow.get? key) = none := by
  rw [h.residual, h.flow, hkey, Strand.rounds_none]
  exact ⟨rfl, rfl⟩

section Engine

variable [JsonWeight W] {settings : FlowSettings W} {g : Graph (VertexState W)}
  {options : EngineOptions} {e : Engine (Sparse W) (VertexState W) (Sparse W) Unit}

/-- What stands for a fresh graph and an engine with every vertex signalled. -/
theorem pending_signalAll (h : Engine.create (Decomposition.program settings) VertexMap.empty
      g.numVertices options = .ok e) (hf : g.finalized = true) (v : VertexId) :
    (e.signalAll.tableau g hf).pending v =
      if v.toNat < g.numVertices then some VertexMap.empty else none := by
  obtain rfl := Engine.eq_ofProgram_of_create h
  refine (Engine.peek_signalAll ?_ v).trans ?_
  · rw [Engine.size_ofProgram]
    exact g.size_le
  · rw [Engine.size_ofProgram, Engine.peek_ofProgram]
    rfl

theorem strandOf_signalAll (h : Engine.create (Decomposition.program settings) VertexMap.empty
      g.numVertices options = .ok e) (hf : g.finalized = true) (fresh : IsFresh g)
    (s : VertexId) : strandOf s (e.signalAll.tableau g hf) = Strand.idle := by
  refine Strand.ext (funext fun v => ?_) (funext fun v => ?_) (funext fun v => ?_)
  · rw [pending_strandOf, pending_signalAll h]
    split <;> rfl
  · show (g.value? v).bind _ = none
    cases hv : g.value? v with
    | none => rfl
    | some value => exact fresh.get?_residual hv s
  · show (g.value? v).bind _ = none
    cases hv : g.value? v with
    | none => rfl
    | some value => exact fresh.get?_flow hv s

/-- An engine that is about to decompose a fresh graph, with every vertex signalled. -/
structure Launched (settings : FlowSettings W) (options : EngineOptions)
    (e : Engine (Sparse W) (VertexState W) (Sparse W) Unit) (g : Graph (VertexState W)) :
    Prop where
  ready : Engine.Runnable e g
  options : e.options = options
  round : e.round = 0
  program : e.machine.program = Decomposition.program settings
  /-- Flow is the same whether it is saved or not. -/
  carry : ∀ flow, e.machine.carry flow = flow
  bounded : ∀ v, g.numVertices ≤ v.toNat → (e.tableau g ready.finalized).pending v = none
  awake : ∀ v, v.toNat < g.numVertices → (e.tableau g ready.finalized).pending v ≠ none
  idle : ∀ s, strandOf s (e.tableau g ready.finalized) = Strand.idle

theorem launched_signalAll (h : Engine.create (Decomposition.program settings) VertexMap.empty
      g.numVertices options = .ok e) (hf : g.finalized = true) (fresh : IsFresh g)
    (hm : options.workers ≤ 1 ∨ OrderFree (Payload.merge : Sparse W → Sparse W → Sparse W))
    (restores : options.persist = true → Restores W) :
    Launched settings options e.signalAll g := by
  have heq := Engine.eq_ofProgram_of_create h
  have hoptions : e.signalAll.options = options := by
    rw [heq]
    rfl
  have hkept : ∀ flow, (Decomposition.program settings).kept options.persist VertexMap.empty flow =
      .ok flow := kept_program restores VertexMap.empty
  have ready := (Engine.Runnable.of_create hf h (onlyScatters_program settings)
    (staysInside_program settings) (fun flow => ⟨flow, hkept flow⟩) hm).of_sameShape
      (Engine.sameShape_signalAll e) hf rfl
  have hpending := pending_signalAll h hf
  refine ⟨ready, hoptions, ?_, congrArg Engine.program heq, fun flow => ?_, fun v hv => ?_,
    fun v hv => ?_, strandOf_signalAll h hf fresh⟩
  · rw [heq]
    rfl
  · rw [heq]
    exact Engine.carry_of_kept (hkept flow)
  · rw [hpending, if_neg (Nat.not_lt.2 hv)]
  · simp [hpending, hv]

theorem Launched.maxRounds (h : Launched settings options e g) :
    e.machine.maxRounds = options.maxRounds := congrArg EngineOptions.maxRounds h.options

/-- Behind any number of rounds, every source has its strand. -/
theorem Launched.strandOf_rounds (h : Launched settings options e g)
    (law : ∀ w, settings.threshold < w → Sparse.FromZero w) (s : VertexId) (k : Nat) :
    strandOf s ((e.tableau g h.ready.finalized).rounds e.machine 0 k) =
      Strand.idle.rounds settings g (seedOf settings g s) options.maxRounds k := by
  rw [PageRank.strandOf_rounds h.program h.carry h.bounded law h.awake, h.idle, h.maxRounds]
  rfl

/-- A run of such an engine is as many rounds as the cap allows. -/
theorem Launched.run_eq_rounds (h : Launched settings options e g) (schedules : Nat → Schedule) :
    e.RunsTo g schedules
      ((e.tableau g h.ready.finalized).rounds e.machine 0 options.maxRounds) := by
  have hrun := h.ready.run_eq_rounds schedules
  rwa [h.round, Nat.sub_zero, h.options] at hrun

/-- **A decomposition of a fresh graph gives every source its strand**, and leaves nothing
pending. -/
theorem decomposed_of_create (h : Engine.create (Decomposition.program settings) VertexMap.empty
      g.numVertices options = .ok e) (hf : g.finalized = true) (fresh : IsFresh g)
    (law : ∀ w, settings.threshold < w → Sparse.FromZero w)
    (hm : options.workers ≤ 1 ∨ OrderFree (Payload.merge : Sparse W → Sparse W → Sparse W))
    (restores : options.persist = true → Restores W) (schedules : Nat → Schedule) :
    (∃ summary, (e.signalAll.run g schedules).result = .ok summary) ∧
      Decomposed settings options.maxRounds g (e.signalAll.run g schedules).graph ∧
      (1 ≤ options.maxRounds →
        ∀ v, (e.signalAll.run g schedules).engine.accumulator.peek v = none) := by
  have launched := launched_signalAll h hf fresh hm restores
  have hrun := launched.run_eq_rounds schedules
  have hstrand := fun s => launched.strandOf_rounds law s options.maxRounds
  have hfollows := follows_rounds (t := e.signalAll.tableau g hf) launched.program
    options.maxRounds
  have hgraph : (e.signalAll.run g schedules).graph = ((e.signalAll.tableau g hf).rounds
    e.signalAll.machine 0 options.maxRounds).graph := hrun.graph
  refine ⟨?_, ?_, fun hone v => (hrun.peek v).trans ?_⟩
  · rw [Engine.run, hrun.result]
    exact ⟨_, rfl⟩
  · rw [hgraph]
    exact
      { finalized := Tableau.finalized _
        edges := hfollows.edges
        size := hfollows.size
        ppr := hfollows.ppr
        residual := fun s v => congrArg (fun σ => σ.residual v) (hstrand s)
        flow := fun s v => congrArg (fun σ => σ.flow v) (hstrand s) }
  · obtain ⟨k, hk⟩ := Nat.exists_eq_add_of_le' hone
    have hmaxRounds := launched.maxRounds
    rw [hk, Tableau.rounds]
    exact pending_round_of_isLastRound launched.program launched.carry (by omega) v

end Engine

end Superstep.PageRank
