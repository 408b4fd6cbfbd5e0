import Mathlib.Data.List.ProdSigma
import Superstep.Proofs.PageRank.Collection

/-!
# What a collection delivers

A collection sends before it puts anything in place. Every vertex works out what it owes from its
own vectors, all of which are still the old ones, and what a source finds is merged from parcels
that were made before the first vector was replaced. The one round that follows sends nothing, so
it only puts the merged parcels where they belong.

The order in which several workers deliver is the only thing that is left open. It matters for
nothing but the sums of the weights under one key: which vertices a source hears from, how many
parcels there are and which vectors stay behind do not depend on it.

## Main results

* `length_emitted`: a parcel for every contribution
* `transformsTo_forward`: what is pending before the round
* `value?_run_of_one_left`: what the round makes of it
* `collection_delivers`: the whole collection
-/

namespace Superstep.PageRank

open Collection

variable {W : Type} [Weight W]

/-! ### Contributions -/

/-- The vertices and the sources to which they send something. -/
def contributions (settings : CollectSettings W) (g : Graph (VertexState W)) :
    List (VertexId × VertexId) :=
  (g.ids ×ˢ g.ids).filter fun pair => (owedAt settings g pair.2 pair.1).isSome

/-- What has an entry at some vertex is a vertex. -/
def KeysInside (g : Graph (VertexState W)) : Prop :=
  ∀ u s value, g.value? u = some value →
    value.flow.get? s ≠ none ∨ value.residual.get? s ≠ none → s.toNat < g.numVertices

/-- What the sources are sent adds up to the same in any order, weight by weight. -/
def SumsExactly (settings : CollectSettings W) (g : Graph (VertexState W)) : Prop :=
  ∀ s id, AnyOrder Sparse.added none
    ((g.ids.filterMap (owedAt settings g s)).map (·.get? id))

/-- The value of a vertex behind a collection. -/
def collected (settings : CollectSettings W) (g : Graph (VertexState W)) (v : VertexId)
    (value : VertexState W) : VertexState W :=
  { value with ppr := settled value.ppr (homeward settings g v), residual := VertexMap.empty }

variable {settings : CollectSettings W} {g : Graph (VertexState W)}

theorem length_contributions : (contributions settings g).length =
    (g.ids.map fun u => g.ids.countP fun s => (owedAt settings g s u).isSome).sum := by
  have hproduct : g.ids ×ˢ g.ids = g.ids.flatMap fun u => g.ids.map (Prod.mk u) := rfl
  rw [contributions, ← List.countP_eq_length_filter, hproduct, List.countP_flatMap]
  simp only [Function.comp_def, List.countP_map]

section Emitted

variable {hf : g.finalized = true} {c : Context} {v : Vertex (VertexState W)}
  (hv : v ∈ (g.network hf).vertices)
include hv

/-- Parcels go to vertices. -/
theorem target_lt_of_mem_emitted (inside : KeysInside g) {signal : Signal (Sparse W)}
    (h : signal ∈ Engine.emitted (forward settings) c v) :
    signal.target.toNat < g.numVertices := by
  have hsent := Accumulator.mem_arrivals h
  rw [Engine.emitted, arrivals_forward] at hsent
  have howed := exists_entry_of_owed (Option.ne_none_iff_exists'.2
    ⟨_, Option.mem_toList.1 hsent⟩)
  exact inside v.id signal.target v.value
    (Graph.value?_eq_value (Network.network_eq_of_mem hv)) howed

/-- A vertex sends as many parcels as there are sources to which it owes something. -/
theorem length_emitted_vertex (inside : KeysInside g) :
    (Engine.emitted (forward settings) c v).length =
      g.ids.countP fun s => (owedAt settings g s v.id).isSome := by
  have htargets : ∀ signal ∈ Engine.emitted (forward settings) c v, signal.target ∈ g.ids :=
    fun signal h => Graph.mem_ids.2 (target_lt_of_mem_emitted hv inside h)
  have nodup : g.ids.Nodup := nodup_map_ofNat_range g.size_le
  rw [← Accumulator.sum_length_arrivals nodup htargets, ← List.length_filterMap_eq_countP,
    List.filterMap_eq_flatMap_toList, List.length_flatMap]
  simp only [arrivals_emitted_vertex hv]

end Emitted

/-- All of them together send one parcel for each contribution. -/
theorem length_emitted (hf : g.finalized = true) (inside : KeysInside g) (c : Context) :
    ((g.network hf).vertices.flatMap (Engine.emitted (forward settings) c)).length =
      (contributions settings g).length := by
  rw [List.length_flatMap, length_contributions, ← Graph.map_id_vertices hf, List.map_map]
  refine congrArg List.sum (List.map_congr_left fun v hv => ?_)
  rw [length_emitted_vertex hv inside, Function.comp_apply, Graph.map_id_vertices hf]

/-! ### The pass -/

section Pass

variable {options : EngineOptions} {engine : Engine (Sparse W) (VertexState W) (Sparse W) Unit}

/-- Before the round every source has pending what it is owed, and no residual is left. -/
theorem transformsTo_forward (hf : g.finalized = true) (inside : KeysInside g)
    (new : Engine.create program VertexMap.empty g.numVertices options = .ok engine)
    (hm : options.workers ≤ 1 ∨
      ∀ s, AnyOrder Payload.merge none (g.ids.filterMap (owedAt settings g s)))
    (picks : List Nat) :
    Engine.TransformsTo engine g (engine.transform g (forward settings) picks)
      (contributions settings g).length
      ((g.network hf).vertices.map fun v => { v.value with residual := VertexMap.empty })
      (homeward settings g) := by
  have w := Engine.WellShaped.create new
  obtain rfl := Engine.eq_ofProgram_of_create new
  have hsize := Engine.size_ofProgram (program (W := W)) VertexMap.empty g.numVertices options
  have hnone := Engine.peek_ofProgram (program (W := W)) VertexMap.empty g.numVertices options
  have h := w.transform_eq hf hsize.symm (forward settings)
    (fun v hv signal hsignal => hsize.symm ▸ target_lt_of_mem_emitted hv inside hsignal)
    (fun s => by
      rw [hnone, Engine.emittedBy, arrivals_emitted hf]
      exact hm.imp w.length_workers_le_one (· s)) picks
  rw [Engine.emittedBy, length_emitted hf inside] at h
  refine ⟨h.result, h.graph, fun s => (h.peek s).trans ?_, h.round⟩
  rw [arrivals_emitted hf, homeward, hnone]

/-- The only round of a collection puts in place what is pending. -/
theorem value?_run_of_one_left {e : Engine (Sparse W) (VertexState W) (Sparse W) Unit}
    (w : Engine.WellShaped e) (hf : g.finalized = true) (hs : g.numVertices = e.accumulator.size)
    (hp : e.program = program) (hc : e.Carries) (left : e.options.maxRounds = e.round + 1)
    (schedules : Nat → Schedule) :
    (∃ summary, (e.run g schedules).result = .ok summary) ∧
      ∀ v, (e.run g schedules).graph.value? v = (g.value? v).map fun value =>
        { value with ppr := settled value.ppr (e.accumulator.peek v) } := by
  have regular : Engine.Regular e := ⟨w, hp ▸ onlyScatters_collection⟩
  obtain ⟨hresult, hgraph⟩ :=
    regular.runRounds_of_one_left hf hs (hp ▸ staysInside_collection) hc left schedules
  refine ⟨⟨_, congrArg (Except.map _) hresult⟩, fun v => ?_⟩
  calc (e.run g schedules).graph.value? v
      = ((e.tableau g hf).round e.machine e.round).graph.value? v :=
        congrArg (Graph.value? · v) hgraph
    _ = (g.value? v).map fun value =>
          { value with ppr := settled value.ppr (e.accumulator.peek v) } :=
        value?_round_collection hp _ v

/-- Both together: a whole collection, if the parcels of every source merge to the same in any
order. -/
theorem collects (hf : g.finalized = true) (inside : KeysInside g) (cap : options.maxRounds = 1)
    (new : Engine.create program VertexMap.empty g.numVertices options = .ok engine)
    (hm : options.workers ≤ 1 ∨
      ∀ s, AnyOrder Payload.merge none (g.ids.filterMap (owedAt settings g s)))
    (picks : List Nat) (schedules : Nat → Schedule) :
    let forwarded := engine.transform g (forward settings) picks
    let behind := forwarded.engine.run forwarded.graph schedules
    forwarded.result = .ok (contributions settings g).length ∧
      (∃ summary, behind.result = .ok summary) ∧
      ∀ v, behind.graph.value? v = (g.value? v).map (collected settings g v) := by
  intro forwarded behind
  have hsent := transformsTo_forward hf inside new hm picks
  have hshape : Engine.SameShape engine forwarded.engine := Engine.sameShape_transform ..
  have w := (Engine.WellShaped.create new).of_sameShape hshape
  obtain rfl := Engine.eq_ofProgram_of_create new
  have hf' : forwarded.graph.finalized = true := by
    rw [hsent.graph]
    exact hf
  have hsize : forwarded.graph.numVertices = forwarded.engine.accumulator.size := by
    rw [hsent.graph, Graph.numVertices_overwrite, hshape.size_accumulator, Engine.size_ofProgram]
  have hcarries : forwarded.engine.Carries :=
    (Engine.carries_of_load_save fun _ => ⟨[], _, rfl, rfl⟩).of_sameShape hshape
  have left : forwarded.engine.options.maxRounds = forwarded.engine.round + 1 := by
    rw [hshape.options, hsent.round]
    exact cap
  obtain ⟨hresult, hvalue⟩ :=
    value?_run_of_one_left w hf' hsize hshape.program hcarries left schedules
  refine ⟨hsent.result, hresult, fun v => (hvalue v).trans ?_⟩
  -- the transformation has left every vector in place but the residuals
  rw [hsent.graph, Graph.value?_overwrite_map hf fun _ value =>
    { value with residual := VertexMap.empty }, Option.map_map, hsent.peek]
  rfl

/-- **A collection delivers to each source exactly its parts.** Every vertex sends every source one
parcel or none, made of the vectors that stood there before; that is what is counted. Behind the
round a source has what its parcels merge to, in the order of the vertices they came from, unless
there is nothing in them. Flow stays, and residuals are gone. -/
theorem collection_delivers (hf : g.finalized = true) (inside : KeysInside g)
    (cap : options.maxRounds = 1)
    (new : Engine.create program VertexMap.empty g.numVertices options = .ok engine)
    (exact : options.workers ≤ 1 ∨ SumsExactly settings g) (picks : List Nat)
    (schedules : Nat → Schedule) :
    let forwarded := engine.transform g (forward settings) picks
    let behind := forwarded.engine.run forwarded.graph schedules
    forwarded.result = .ok (contributions settings g).length ∧
      (∃ summary, behind.result = .ok summary) ∧
      ∀ v, behind.graph.value? v = (g.value? v).map (collected settings g v) := by
  have hm : options.workers ≤ 1 ∨
      ∀ s, AnyOrder Payload.merge none (g.ids.filterMap (owedAt settings g s)) :=
    exact.imp_right fun h s => Sparse.anyOrder_merge (h s)
  exact collects hf inside cap new hm picks schedules

end Pass

/-- Two vertices that both have something for the first one: a residual, and flow with a residual
to go with it. -/
def homebound : Graph (VertexState Binary64) :=
  Graph.twoCycle { residual := VertexMap.singleton 0 (1 / 4) }
    { ppr := VertexMap.singleton 0 (1 / 2)
      flow := VertexMap.singleton 0 (1 / 2)
      residual := VertexMap.singleton 0 (1 / 8) }

theorem eq_zero_of_homebound {u s : VertexId} {value : VertexState Binary64}
    (hu : homebound.value? u = some value)
    (hentry : value.flow.get? s ≠ none ∨ value.residual.get? s ≠ none) : s = 0 := by
  have hmem : value ∈ homebound.data := Array.mem_of_getElem? hu
  simp only [homebound, Graph.twoCycle, List.mem_toArray, List.mem_cons, List.not_mem_nil,
    or_false] at hmem
  by_contra hs
  rcases hmem with rfl | rfl <;>
    simp [VertexMap.get?_singleton, VertexMap.get?_empty, Ne.symm hs] at hentry

theorem keysInside_homebound : KeysInside homebound := by
  intro u s value hu hentry
  rw [eq_zero_of_homebound hu hentry]
  decide

theorem sumsExactly_homebound : SumsExactly ⟨0, false⟩ homebound := by
  intro s id
  by_cases hs : s = 0
  · have hparcels : homebound.ids.filterMap (owedAt ⟨0, false⟩ homebound 0) =
        [VertexMap.singleton 0 (1 / 4),
          Sparse.add (Sparse.scaled (VertexMap.singleton 0 (1 / 2)) (1 / 2)) 1 (1 / 8)] := by
      decide +kernel
    rw [hs, hparcels]
    refine anyOrder_pair ?_
    by_cases h0 : id = 0
    · subst h0
      decide +kernel
    · by_cases h1 : id = 1
      · subst h1
        decide +kernel
      · simp [Sparse.get?_add, Sparse.get?_scaled, VertexMap.get?_singleton, h1, Ne.symm h0]
  · have hnone : ∀ u ∈ homebound.ids, owedAt ⟨0, false⟩ homebound s u = none := by
      intro u _
      by_contra howed
      obtain ⟨parcel, howed⟩ := Option.ne_none_iff_exists'.1 howed
      obtain ⟨value, hu, howed⟩ := Option.bind_eq_some_iff.1 howed
      exact hs (eq_zero_of_homebound hu (exists_entry_of_owed (howed ▸ Option.some_ne_none parcel)))
    rw [List.filterMap_eq_nil_iff.2 hnone]
    exact anyOrder_of_length_le_one _ _ (Nat.zero_le 1)

/-- The first vertex gets both parcels, whichever worker comes first. -/
theorem collection_delivers_homebound :
    let engine := Engine.ofProgram program VertexMap.empty 2 ⟨1, 2, false⟩
    let forwarded := engine.transform homebound (forward ⟨0, false⟩) [1, 0]
    let behind := forwarded.engine.run forwarded.graph fun _ => ⟨[1, 0], [], []⟩
    forwarded.result = .ok 2 ∧ (∃ summary, behind.result = .ok summary) ∧
      (behind.graph.value? 0).map (·.ppr.get? 0) = some (some (1 / 2)) ∧
      (behind.graph.value? 0).map (·.ppr.get? 1) = some (some (1 / 8)) := by
  intro engine forwarded behind
  have new : Engine.create program VertexMap.empty homebound.numVertices ⟨1, 2, false⟩ =
      .ok engine := rfl
  obtain ⟨hcount, hresult, hvalue⟩ := collection_delivers rfl keysInside_homebound rfl new
    (.inr sumsExactly_homebound) [1, 0] fun _ => ⟨[1, 0], [], []⟩
  have hparcels : (contributions ⟨0, false⟩ homebound).length = 2 := by decide +kernel
  refine ⟨hcount.trans (congrArg Except.ok hparcels), hresult, ?_, ?_⟩
  · rw [hvalue]
    decide +kernel
  · rw [hvalue]
    decide +kernel

end Superstep.PageRank
