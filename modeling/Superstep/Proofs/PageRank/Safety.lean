import Superstep.Proofs.PageRank.Loading
import Superstep.Proofs.PageRank.Query
import Superstep.Proofs.PageRank.Spread

/-!
# Queries cannot fail

The sources to which a collection sends are keys of maps, and no type says that they are vertices.
They are, because every key has started at a vertex that seeded it, or was there before. So a query
on a graph whose keys are vertices succeeds, whatever its weights are, and leaves such a graph
behind: it can be queried again.

A query on a graph that was queried before finds flow there that earlier ones have left. That is
why nothing here asks for a fresh graph. What a query finds of a source that is not its own it
leaves in place, and all that it adds is keyed by its own sources.

## Main definitions

* `Engine.InBounds`: the indices of a pass
* `Decomposes`, `Collects`: what the two passes leave of a graph
* `Call`, `queried`: queries, one after the other
* `Queryable`, `Safe`: what queries need, and what can be said of every one

## Main results

* `decomposes_of_fits`: the first pass, on any graph
* `collect_unordered`: the second pass, whoever delivers first
* `queries_are_safe`: any sequence of queries
-/

namespace Superstep

namespace Engine

variable {S D M G : Type} {e : Engine S D M G} {g : Graph D}

/-- Every index that a round uses lies within the table that it is used on. -/
structure InBounds [Payload G] [Inhabited G] (e : Engine S D M G) (g : Graph D)
    (hf : g.finalized = true) : Prop where
  accumulator : e.accumulator.size = g.numVertices
  slots : e.slots.size = g.numVertices
  topology : (g.network hf).topology.size = g.numVertices
  /-- Every worker has a share of the vertices. -/
  workers : (e.share (g.network hf).vertices).map Prod.fst = e.workers
  /-- It is the vertices of its range. -/
  shares : ∀ share ∈ e.share (g.network hf).vertices, share.2.map Vertex.id = share.1.ids
  /-- Between them the ranges have every vertex once. -/
  ranges : (e.workers.map Worker.ids).flatten = g.ids
  /-- Links lead to vertices. -/
  links : ∀ v : Vertex D, v.network = g.network hf →
    ∀ w ∈ v.sources ++ v.targets, w.toNat < g.numVertices
  /-- Signals go to vertices. -/
  signals : ∀ signal ∈ (e.tableau g hf).sent e.ideal e.round, signal.target.toNat < g.numVertices

/-- The share of a worker is the vertices of its range. -/
theorem WellShaped.ids_of_mem_share (w : WellShaped e) {n : Network D}
    (hn : n.topology.size = e.slots.size) {share : Worker × List (Vertex D)}
    (h : share ∈ e.share n.vertices) : share.2.map Vertex.id = share.1.ids := by
  have hshares : (e.share n.vertices).map (fun share => (share.1, share.2.map Vertex.id)) =
      e.workers.map fun worker => (worker, worker.ids) := by
    rw [← share_map, Engine.share, Network.map_id_vertices, hn,
      Tiling.chunks_map (Tiling.chunkSize_pos ..), ← Tiling.positions_ranges, ← w.ranges,
      List.map_prod_left_eq_zip]
    simp only [List.map_map]
    rfl
  have hmem : (share.1, share.2.map Vertex.id) ∈
      e.workers.map fun worker => (worker, worker.ids) :=
    hshares ▸ List.mem_map_of_mem h
  obtain ⟨worker, -, heq⟩ := List.mem_map.1 hmem
  obtain ⟨rfl, hids⟩ := Prod.mk.inj heq
  exact hids.symm

/-- **An engine that is prepared for a graph uses no index out of range.** -/
theorem Prepared.inBounds [Payload G] [Inhabited G] (ready : Prepared e g) :
    InBounds e g ready.finalized := by
  have w := ready.regular
  have hf := ready.finalized
  have hn := w.topology_size hf ready.size
  have hslots : e.slots.size = g.numVertices := w.size_slots.trans ready.size.symm
  refine ⟨ready.size.symm, hslots, hn.trans hslots, w.share_fst (w.length_vertices hf ready.size),
    fun share h => w.ids_of_mem_share hn h, ?_, fun v hv u hu => ?_, fun signal hsignal => ?_⟩
  · rw [w.flatten_ids, hslots, Graph.ids]
  · rw [Graph.sources_vertex hv, Graph.targets_vertex hv] at hu
    exact (List.mem_append.1 hu).elim Graph.lt_of_mem_sourcesOf Graph.lt_of_mem_targetsOf
  · obtain ⟨v, hv, hsignal⟩ := List.mem_flatMap.1 hsignal
    have hnetwork : v.network = g.network hf := Network.network_eq_of_mem hv
    rw [← hslots, ← hn, ← hnetwork]
    rw [Tableau.signalsOf] at hsignal
    split at hsignal
    · cases hsignal
    · exact ready.inside.targets _ (v.withValues _) _ signal hsignal

/-- Behind any steps that do not fail it still uses none. -/
theorem Prepared.inBounds_of_proceeds [Payload M] [Payload G] [Inhabited G] {e' : Engine S D M G}
    {g' : Graph D} (ready : Prepared e g) (h : Proceeds e g e' g') :
    ∃ hf' : g'.finalized = true, InBounds e' g' hf' := by
  obtain ⟨next, -, -⟩ := ready.of_proceeds (P := fun _ _ => True) trivial
    (fun _ _ _ _ _ _ _ => trivial) h
  exact ⟨next.finalized, next.inBounds⟩

end Engine

namespace PageRank

variable {W : Type} [Weight W]

/-! ### Decomposing -/

/-- What a decomposition leaves of a graph: all but what the sources own. -/
structure Decomposes (settings : FlowSettings W) (g g' : Graph (VertexState W)) : Prop where
  finalized : g'.finalized = true
  edges : g'.edges = g.edges
  size : g'.numVertices = g.numVertices
  ppr : ∀ v, (g'.value? v).map VertexState.ppr = (g.value? v).map VertexState.ppr
  residual : ∀ s v, seedOf settings g s = none →
    (g'.value? v).bind (·.residual.get? s) = (g.value? v).bind (·.residual.get? s)
  flow : ∀ s v, seedOf settings g s = none →
    (g'.value? v).bind (·.flow.get? s) = (g.value? v).bind (·.flow.get? s)

/-- What a tableau has kept of the one that the rounds started from. -/
structure Keeps (settings : FlowSettings W) (t t' : Tableau (VertexState W) (Sparse W)) : Prop
    extends Follows t t' where
  strand : ∀ s, seedOf settings t.graph s = none → strandOf s t' = strandOf s t

section Decompose

variable [JsonWeight W] {g : Graph (VertexState W)} {settings : ComputeSettings W}
  {sources : Option VertexSet}

/-- The engine of a decomposition. -/
def decomposer (settings : ComputeSettings W) (sources : Option VertexSet) (n : Nat) :
    Engine (Sparse W) (VertexState W) (Sparse W) Unit :=
  Engine.ofProgram (Decomposition.program (settings.flowSettings sources)) VertexMap.empty n
    settings.decompositionOptions

theorem keeps_of_mayFollow {flow : FlowSettings W} {t t' t'' : Tableau (VertexState W) (Sparse W)}
    {m : Machine (Sparse W) (VertexState W) (Sparse W) Unit} {r : Nat}
    (hp : m.program = Decomposition.program flow) (hc : ∀ flow, m.carry flow = flow)
    (idle : ∀ s v, (strandOf s t).pending v = none) (h : Keeps flow t t')
    (follows : t'.MayFollow m r t'') : Keeps flow t t'' := by
  refine ⟨h.toFollows.trans ?_, fun s hs => ?_⟩
  · obtain ⟨hedges, hsize, hppr⟩ := follows_round (t := t') hp r
    rw [← follows.graph] at hedges hsize hppr
    exact ⟨hedges, hsize, hppr⟩
  · have hs' : seedOf flow t'.graph s = none := by
      rw [seedOf, h.size, ← seedOf, hs]
    rw [strandOf_of_mayFollow hp hc follows hs' fun v => by rw [h.strand s hs, idle], h.strand s hs]

theorem prepared_decomposer (hf : g.finalized = true)
    (fits : Tiling.fits g.numVertices settings.decompositionOptions.workers = true) :
    Engine.Prepared (decomposer settings sources g.numVertices).signalAll g :=
  (Engine.Prepared.of_create hf (Engine.create_eq_ofProgram fits)
    (onlyScatters_program (settings.flowSettings sources))
    (staysInside_program (settings.flowSettings sources))
      fun persist => absurd persist Bool.false_ne_true).of_sameShape
        (Engine.sameShape_signalAll _) hf rfl

theorem decompose_eq (schedules : Nat → Schedule) :
    decompose g settings sources schedules =
      (decomposer settings sources g.numVertices).signalAll.run g schedules := rfl

/-- **A decomposition succeeds on any graph**, and touches nothing that its sources do not own. -/
theorem decomposes_of_fits (sources : Option VertexSet) (hf : g.finalized = true)
    (fits : Tiling.fits g.numVertices settings.decompositionOptions.workers = true)
    (schedules : Nat → Schedule) :
    (∃ summary, (decompose g settings sources schedules).result = .ok summary ∧
      summary.rounds ≤ settings.niters + 1) ∧
    Decomposes (settings.flowSettings sources) g
      (decompose g settings sources schedules).graph := by
  have ready : Engine.Prepared (decomposer settings sources g.numVertices).signalAll g :=
    prepared_decomposer hf fits
  have new : Engine.create (Decomposition.program (settings.flowSettings sources)) VertexMap.empty
      g.numVertices settings.decompositionOptions =
        .ok (decomposer settings sources g.numVertices) := Engine.create_eq_ofProgram fits
  rw [decompose_eq]
  -- from here on only the start, the cap and the program of the engine matter
  generalize hengine : decomposer settings sources g.numVertices = e at ready new
  have hround : e.signalAll.round = 0 := by
    rw [← hengine]
    rfl
  have hcap : e.signalAll.options.maxRounds = settings.niters + 1 := by
    rw [← hengine]
    rfl
  have hprogram : e.signalAll.ideal.program =
      Decomposition.program (settings.flowSettings sources) := by
    rw [← hengine]
    rfl
  have hcarries : e.signalAll.Carries := Engine.carries_of_persist (by rw [← hengine]; rfl)
  have idle : ∀ s v, (strandOf s (e.signalAll.tableau g hf)).pending v = none := by
    intro s v
    rw [pending_strandOf, pending_signalAll new]
    split <;> rfl
  obtain ⟨e', g', hproceeds, hend, hlast⟩ :=
    Engine.exists_proceeds_runRounds e.signalAll g schedules
  have hok := ready.runRounds_ok hcarries schedules
  obtain ⟨rfl, rfl⟩ := hlast hok
  obtain ⟨next, -, hle, hkeeps⟩ := ready.of_proceeds
    (P := fun r t => r ≤ settings.niters + 1 ∧
      Keeps (settings.flowSettings sources) (e.signalAll.tableau g hf) t)
    ⟨hround ▸ Nat.zero_le _, .refl _, fun _ _ => rfl⟩
    (fun r t t' cap _ h follows => ⟨hcap ▸ cap,
      keeps_of_mayFollow hprogram (fun _ => rfl) idle h.2 follows⟩) hproceeds
  refine ⟨⟨_, congrArg (Except.map _) hok, ?_⟩, ?_⟩
  · exact Nat.le_trans (Nat.sub_le ..) hle
  · exact
      { finalized := next.finalized
        edges := hkeeps.edges
        size := hkeeps.size
        ppr := hkeeps.ppr
        residual := fun s v hs => congrArg (fun σ => σ.residual v) (hkeeps.strand s hs)
        flow := fun s v hs => congrArg (fun σ => σ.flow v) (hkeeps.strand s hs) }

omit [Weight W] [JsonWeight W] in
/-- What a decomposition adds is keyed by vertices. -/
theorem Decomposes.keysInside {settings : FlowSettings W} {gd : Graph (VertexState W)}
    (h : Decomposes settings g gd) (inside : KeysInside g) : KeysInside gd := by
  intro u s value hu hentry
  rw [h.size]
  by_contra hle
  have hs : seedOf settings g s = none := seedOf_eq_none fun hs => hle hs.2
  have hresidual := h.residual s u hs
  have hflow := h.flow s u hs
  rw [hu, Option.bind_some] at hresidual hflow
  cases hold : g.value? u with
  | none =>
    rw [hold] at hresidual hflow
    exact hentry.elim (· hflow) (· hresidual)
  | some old =>
    rw [hold, Option.bind_some] at hresidual hflow
    rw [hresidual, hflow] at hentry
    exact hle (inside u s old hold hentry)

end Decompose

/-! ### Collecting -/

/-- What a collection leaves of a graph. Parcels merge in the order in which they happen to
arrive. -/
structure Collects (settings : CollectSettings W) (g g' : Graph (VertexState W)) : Prop where
  finalized : g'.finalized = true
  size : g'.numVertices = g.numVertices
  value : ∀ v, ∃ order : List (Sparse W), order.Perm (g.ids.filterMap (owedAt settings g v)) ∧
    g'.value? v = (g.value? v).map fun value =>
      { value with
        ppr := settled value.ppr (mergeAllInto Payload.merge none order)
        residual := VertexMap.empty }

/-- Behind a collection stands what stood there before, without its residual. -/
theorem Collects.exists_old {settings : CollectSettings W} {g g' : Graph (VertexState W)}
    (h : Collects settings g g') {v : VertexId} {value : VertexState W}
    (hv : g'.value? v = some value) :
    ∃ old, g.value? v = some old ∧ value.flow = old.flow ∧ value.residual = VertexMap.empty := by
  obtain ⟨order, -, hvalue⟩ := h.value v
  rw [hv, eq_comm, Option.map_eq_some_iff] at hvalue
  obtain ⟨old, hold, rfl⟩ := hvalue
  exact ⟨old, hold, rfl, rfl⟩

theorem Collects.keysInside {settings : CollectSettings W} {g g' : Graph (VertexState W)}
    (h : Collects settings g g') (inside : KeysInside g) : KeysInside g' := by
  intro u s value hu hentry
  obtain ⟨old, hold, hflow, hresidual⟩ := h.exists_old hu
  rw [hflow, hresidual] at hentry
  rw [h.size]
  exact inside u s old hold (hentry.imp_right fun hnone => absurd rfl hnone)

section Collect

variable {g : Graph (VertexState W)} {settings : ComputeSettings W}

omit [Weight W] in
theorem prepared_collector (hf : g.finalized = true)
    (fits : Tiling.fits g.numVertices settings.decompositionOptions.workers = true) :
    Engine.Prepared (collector settings g.numVertices) g :=
  .of_create hf (Engine.create_eq_ofProgram fits) onlyScatters_collection staysInside_collection
    fun persist => absurd persist Bool.false_ne_true

/-- Parcels go to vertices, whoever delivers them. -/
theorem forwarded_unordered (hf : g.finalized = true)
    (fits : Tiling.fits g.numVertices settings.decompositionOptions.workers = true)
    (inside : KeysInside g) (picks : List Nat) :
    (∃ count, (forwarded settings g picks).result = .ok count) ∧
      Engine.Prepared (forwarded settings g picks).engine (forwarded settings g picks).graph ∧
      (forwarded settings g picks).engine.round = 0 ∧
      (∀ v, (forwarded settings g picks).graph.value? v =
        (g.value? v).map fun value => { value with residual := VertexMap.empty }) ∧
      ∀ v, ∃ order : List (Sparse W),
        order.Perm (g.ids.filterMap (owedAt settings.collectSettings g v)) ∧
          (forwarded settings g picks).engine.accumulator.peek v =
            mergeAllInto Payload.merge none order := by
  have ready : Engine.Prepared (collector settings g.numVertices) g := prepared_collector hf fits
  obtain ⟨hresult, hgraph, hround, hpeek⟩ := ready.regular.transform_unordered hf ready.size
    (Collection.forward settings.collectSettings) (fun v hv signal hsignal =>
      ready.size ▸ target_lt_of_mem_emitted hv inside hsignal) picks
  refine ⟨⟨_, hresult⟩, ?_, hround, fun v => ?_, fun v => ?_⟩
  · refine ready.of_sameShape (Engine.sameShape_transform ..) ?_ ?_
    · exact (congrArg Graph.finalized hgraph).trans hf
    · exact (congrArg Graph.numVertices hgraph).trans (Graph.numVertices_overwrite ..)
  · refine (congrArg (Graph.value? · v) hgraph).trans ?_
    exact Graph.value?_overwrite_map hf
      (fun _ value => { value with residual := VertexMap.empty }) v
  · obtain ⟨order, hperm, horder⟩ := hpeek v
    rw [Engine.emittedBy, arrivals_emitted hf] at hperm
    refine ⟨order, hperm, horder.trans ?_⟩
    rw [collector, Engine.peek_ofProgram]

/-- **A collection succeeds if parcels go to vertices**, and touches nothing but the vectors that
they arrive for. -/
theorem collect_unordered (hf : g.finalized = true)
    (fits : Tiling.fits g.numVertices settings.decompositionOptions.workers = true)
    (inside : KeysInside g) (schedule : ComputeSchedule) :
    (∃ summary, (collect g settings schedule).result = .ok summary ∧ summary.rounds ≤ 1) ∧
      Collects settings.collectSettings g (collect g settings schedule).graph := by
  obtain ⟨⟨count, hcount⟩, ready, hround, hforwarded, hpeek⟩ :=
    forwarded_unordered hf fits inside schedule.transformation
  have hshape : Engine.SameShape (collector settings g.numVertices)
      (forwarded settings g schedule.transformation).engine := Engine.sameShape_transform ..
  have hcap : (forwarded settings g schedule.transformation).engine.options.maxRounds = 1 := by
    rw [hshape.options]
    rfl
  have hcarries : (forwarded settings g schedule.transformation).engine.Carries :=
    Engine.carries_of_persist (by rw [hshape.options]; rfl)
  obtain ⟨⟨summary, hsummary⟩, hvalue⟩ :=
    value?_run_of_one_left ready.regular.toWellShaped ready.finalized ready.size hshape.program
      hcarries (by rw [hcap, hround]) schedule.collection
  obtain ⟨e', g', hproceeds, -, hlast⟩ := Engine.exists_proceeds_runRounds
    (forwarded settings g schedule.transformation).engine
    (forwarded settings g schedule.transformation).graph schedule.collection
  obtain ⟨rfl, rfl⟩ := hlast (ready.runRounds_ok hcarries schedule.collection)
  obtain ⟨next, hshape', -⟩ := ready.of_proceeds (P := fun _ _ => True) trivial
    (fun _ _ _ _ _ _ _ => trivial) hproceeds
  rw [collect_of_ok hcount]
  refine ⟨⟨summary, hsummary, ?_⟩, next.finalized, ?_, fun v => ?_⟩
  · rw [Engine.rounds_of_run hsummary, ← hcap]
    exact Nat.le_trans (Nat.sub_le ..)
      (ready.round_run_le (by rw [hround]; exact Nat.zero_le _) schedule.collection)
  · exact next.size.trans ((hshape.trans hshape').size_accumulator.trans (Engine.size_ofProgram ..))
  · obtain ⟨order, hperm, horder⟩ := hpeek v
    refine ⟨order, hperm, (hvalue v).trans ?_⟩
    rw [hforwarded, horder, Option.map_map]
    rfl

end Collect

/-! ### Queries, one after the other -/

/-- A query: its numbers, its sources and the schedules of its engines. -/
structure Call (W : Type) where
  settings : ComputeSettings W
  sources : Option VertexSet
  schedule : ComputeSchedule := default

section Calls

variable [JsonWeight W] {call : Call W} {g : Graph (VertexState W)}

namespace Call

def on (call : Call W) (g : Graph (VertexState W)) : Computed W :=
  compute g call.settings call.sources call.schedule

/-- What the first pass leaves of a graph. -/
def decomposed (call : Call W) (g : Graph (VertexState W)) : Graph (VertexState W) :=
  (decompose g call.settings call.sources call.schedule.decomposition).graph

/-- What the second pass starts from. -/
def sent (call : Call W) (g : Graph (VertexState W)) :
    Outcome (Sparse W) (VertexState W) (Sparse W) Unit Nat :=
  forwarded call.settings (call.decomposed g) call.schedule.transformation

end Call

/-- The graph that calls leave behind, one after the other. A call whose rounds or workers cannot
be counted leaves the graph as it is. -/
def queried (g : Graph (VertexState W)) (calls : List (Call W)) : Graph (VertexState W) :=
  calls.foldl (fun g call => (call.on g).graph) g

/-- A graph that can be queried. -/
structure Queryable (g : Graph (VertexState W)) : Prop where
  finalized : g.finalized = true
  inside : KeysInside g

/-- Nothing is retained anywhere. -/
def NoResidual (g : Graph (VertexState W)) : Prop :=
  ∀ v value, g.value? v = some value → value.residual = VertexMap.empty

/-- What can be said of a call on a graph. Rounds are those that are run, and all that could be run
under other schedules. -/
structure Safe (call : Call W) (g : Graph (VertexState W)) : Prop where
  /-- The call succeeds, and neither pass takes more rounds than it may. -/
  result : ∃ summary, (call.on g).result = .ok summary ∧
    summary.decomposition.rounds ≤ call.settings.niters + 1 ∧ summary.collection.rounds ≤ 1
  /-- No round of the first pass uses an index out of range. -/
  decomposition : ∀ e' g', Engine.Proceeds
    (decomposer call.settings call.sources g.numVertices).signalAll g e' g' →
      ∃ hf' : g'.finalized = true, Engine.InBounds e' g' hf'
  /-- Neither does the transformation, -/
  forwarding : ∃ hf' : (call.decomposed g).finalized = true,
    Engine.InBounds (collector call.settings g.numVertices) (call.decomposed g) hf'
  /-- whose parcels go to vertices, -/
  parcels : ∀ hf' : (call.decomposed g).finalized = true,
    ∀ signal ∈ (collector call.settings g.numVertices).emittedBy ((call.decomposed g).network hf')
      (Collection.forward call.settings.collectSettings), signal.target.toNat < g.numVertices
  /-- nor any round of the second pass. -/
  collection : ∀ e' g', Engine.Proceeds (call.sent g).engine (call.sent g).graph e' g' →
    ∃ hf' : g'.finalized = true, Engine.InBounds e' g' hf'
  size : (call.on g).graph.numVertices = g.numVertices
  /-- What was retained has been collected. -/
  residual : NoResidual (call.on g).graph
  /-- The graph can be queried again. -/
  queryable : Queryable (call.on g).graph

/-- The two passes of a call, and how long they take. -/
theorem Queryable.passes (h : Queryable g) (fits : call.settings.fits g.numVertices = true) :
    (∃ summary, (call.on g).result = .ok summary ∧
      summary.decomposition.rounds ≤ call.settings.niters + 1 ∧ summary.collection.rounds ≤ 1) ∧
    Decomposes (call.settings.flowSettings call.sources) g (call.decomposed g) ∧
    Collects call.settings.collectSettings (call.decomposed g) (call.on g).graph := by
  have hfits : Tiling.fits g.numVertices call.settings.decompositionOptions.workers = true :=
    (Bool.and_eq_true_iff.1 fits).2
  obtain ⟨⟨first, hfirst, hrounds⟩, hd⟩ :=
    decomposes_of_fits call.sources h.finalized hfits call.schedule.decomposition
  obtain ⟨⟨second, hsecond, hone⟩, hc⟩ :=
    collect_unordered hd.finalized (hd.size ▸ hfits) (hd.keysInside h.inside) call.schedule
  obtain ⟨hgraph, hresult⟩ := compute_of_ok fits call.schedule hfirst
  refine ⟨⟨⟨first, second⟩, ?_, hrounds, hone⟩, hd, hgraph ▸ hc⟩
  exact hresult.trans (congrArg (Except.map _) hsecond)

/-- **A call on a graph that can be queried** is safe. -/
theorem Queryable.safe (h : Queryable g) (fits : call.settings.fits g.numVertices = true) :
    Safe call g := by
  have hfits : Tiling.fits g.numVertices call.settings.decompositionOptions.workers = true :=
    (Bool.and_eq_true_iff.1 fits).2
  obtain ⟨hresult, hd, hc⟩ := h.passes fits
  have hinside : KeysInside (call.decomposed g) := hd.keysInside h.inside
  have hcollector : Engine.Prepared (collector call.settings g.numVertices) (call.decomposed g) :=
    hd.size ▸ prepared_collector hd.finalized (hd.size ▸ hfits)
  obtain ⟨-, hsent, -⟩ :=
    forwarded_unordered hd.finalized (hd.size ▸ hfits) hinside call.schedule.transformation
  constructor
  · exact hresult
  · intro e' g' hproceeds
    exact (prepared_decomposer h.finalized hfits).inBounds_of_proceeds hproceeds
  · exact ⟨hd.finalized, hcollector.inBounds⟩
  · intro hf' signal hsignal
    obtain ⟨v, hv, hsignal⟩ := List.mem_flatMap.1 hsignal
    exact hd.size ▸ target_lt_of_mem_emitted hv hinside hsignal
  · intro e' g' hproceeds
    exact hsent.inBounds_of_proceeds hproceeds
  · exact hc.size.trans hd.size
  · intro v value hv
    obtain ⟨-, -, -, hresidual⟩ := hc.exists_old hv
    exact hresidual
  · exact ⟨hc.finalized, hc.keysInside hinside⟩

theorem Call.graph_on_of_not_fits (h : ¬ call.settings.fits g.numVertices = true) :
    (call.on g).graph = g := by
  rw [Call.on, compute, if_neg h]

/-- A call leaves a graph behind that can be queried, whether it succeeds or not. -/
theorem Queryable.queryable_on (h : Queryable g) (call : Call W) :
    Queryable (call.on g).graph ∧ (call.on g).graph.numVertices = g.numVertices := by
  by_cases fits : call.settings.fits g.numVertices = true
  · have hsafe : Safe call g := h.safe fits
    exact ⟨hsafe.queryable, hsafe.size⟩
  · rw [Call.graph_on_of_not_fits fits]
    exact ⟨h, rfl⟩

/-- **What every call preserves, any number of calls preserve.** -/
theorem Queryable.queried_of_on {P : Graph (VertexState W) → Prop} {calls : List (Call W)}
    (h : Queryable g) (start : P g)
    (on : ∀ g, Queryable g → P g → ∀ call ∈ calls, P (call.on g).graph) :
    Queryable (queried g calls) ∧ P (queried g calls) := by
  induction calls generalizing g with
  | nil => exact ⟨h, start⟩
  | cons call calls ih =>
    refine ih (h.queryable_on call).1 (on g h start call List.mem_cons_self) ?_
    intro g hg hp other hother
    exact on g hg hp other (List.mem_cons_of_mem _ hother)

theorem Queryable.queryable_queried (h : Queryable g) (calls : List (Call W)) :
    Queryable (queried g calls) ∧ (queried g calls).numVertices = g.numVertices :=
  h.queried_of_on (P := fun g' => g'.numVertices = g.numVertices) rfl
    fun _ hg hsize call _ => (hg.queryable_on call).2.trans hsize

end Calls

omit [Weight W] in
/-- What nothing has flowed in has no keys. -/
theorem IsFresh.keysInside {g : Graph (VertexState W)} (fresh : IsFresh g) : KeysInside g := by
  intro u s value hu hentry
  exact hentry.elim (absurd (fresh.get?_flow hu s)) (absurd (fresh.get?_residual hu s))

/-- **Queries cannot fail.** A graph that was loaded can be queried. On a graph that can be queried,
and behind any earlier calls, a call whose rounds and workers can be counted is safe, whatever its
numbers and its sources are: it succeeds, it uses no index out of range, and it leaves a graph of
the same size that has no residual and that can be queried again. -/
theorem queries_are_safe :
    (∀ (format : GraphFormat) (path : String) (content : List UInt8)
      (g : Graph (VertexState Binary64)) (events : List Event),
      format.load path content = .ok (g, events) → Queryable g) ∧
    ∀ (g : Graph (VertexState Binary64)) (earlier : List (Call Binary64)) (call : Call Binary64),
      Queryable g → call.settings.fits g.numVertices = true → Safe call (queried g earlier) := by
  refine ⟨fun format path content g events h => ?_, fun g earlier call h fits => ?_⟩
  · exact ⟨GraphFormat.finalized_of_load h, (GraphFormat.isFresh_of_load h).keysInside⟩
  · obtain ⟨hq, hsize⟩ := h.queryable_queried earlier
    exact hq.safe (hsize ▸ fits)

/-- Nothing that a configuration may hold is sensible here: a NaN, an infinity, a source beyond the
graph, and more workers than vertices. -/
def strayCall : Call Binary64 where
  settings := ⟨1, Binary64.positiveNaN, Binary64.infinity true, true, 5⟩
  sources := some (VertexSet.ofList [0, 7])

theorem queries_are_safe_stray :
    GraphFormat.edgeList.load "cycle" (Text.encode "0 1\n1 0\n") = .ok (Graph.twoCycle {} {}, []) ∧
      Queryable (Graph.twoCycle (D := VertexState Binary64) {} {}) ∧
      Safe strayCall (queried (Graph.twoCycle {} {}) [strayCall]) := by
  have hq := queries_are_safe.1 _ _ _ _ _ GraphFormat.load_cycle
  exact ⟨GraphFormat.load_cycle, hq, queries_are_safe.2 _ _ _ hq (by decide +kernel)⟩

end PageRank

end Superstep
