import Superstep.PageRank.Compute
import Superstep.Proofs.PageRank.Decomposition
import Superstep.Proofs.PageRank.Delivery

/-!
# A whole query

A query on a graph in which nothing has flowed yet is put together from the strands of its sources:
the decomposition leaves them behind, the collection sends each of them home, and what arrives takes
the place of the vector that was there. What a source gets therefore depends on its own strand and
on the vectors of the graph as they were before the query, because all of them are read before the
first one is replaced.

## Main results

* `collect_eq`: a collection, vertex by vertex
* `answers_compute`: a query that can be counted, vertex by vertex
-/

namespace Superstep.PageRank

variable {W : Type} [Weight W]

namespace ComputeSettings

variable (settings : ComputeSettings W)

/-- The settings of the decomposition. -/
def flowSettings (sources : Option VertexSet) : FlowSettings W :=
  ⟨settings.resetProb, settings.threshold, sources⟩

/-- The settings of the collection. -/
def collectSettings : CollectSettings W := ⟨settings.threshold, settings.noIndex⟩

omit [Weight W] in
theorem workers_le_one {settings : ComputeSettings W} (h : settings.workers ≤ 1) :
    settings.decompositionOptions.workers ≤ 1 := Nat.max_le.2 ⟨h, Nat.le_refl 1⟩

end ComputeSettings

/-! ### Collecting -/

section Collect

variable {settings : ComputeSettings W} {g : Graph (VertexState W)}

/-- The engine of a collection. -/
def collector (settings : ComputeSettings W) (n : Nat) :
    Engine (Sparse W) (VertexState W) (Sparse W) Unit :=
  Engine.ofProgram Collection.program VertexMap.empty n settings.collectionOptions

/-- The parcels sent home, for the collection to put in place. -/
def forwarded (settings : ComputeSettings W) (g : Graph (VertexState W)) (picks : List Nat) :
    Outcome (Sparse W) (VertexState W) (Sparse W) Unit Nat :=
  (collector settings g.numVertices).transform g
    (Collection.forward settings.collectSettings) picks

theorem collect_of_ok {schedule : ComputeSchedule} {count : Nat}
    (h : (forwarded settings g schedule.transformation).result = .ok count) :
    collect g settings schedule =
      { (forwarded settings g schedule.transformation).engine.run
          (forwarded settings g schedule.transformation).graph schedule.collection with
        events := (forwarded settings g schedule.transformation).events ++
          ((forwarded settings g schedule.transformation).engine.run
            (forwarded settings g schedule.transformation).graph schedule.collection).events } := by
  have hresult : ((Engine.ofProgram Collection.program VertexMap.empty g.numVertices
      settings.collectionOptions).transform g (Collection.forward
        ⟨settings.threshold, settings.noIndex⟩) schedule.transformation).result = .ok count := h
  simp only [collect, hresult]
  rfl

/-- **A collection replaces every vector by what arrives for it**, and nothing else but the
residuals, which are gone. -/
theorem collect_eq (hf : g.finalized = true)
    (fits : Tiling.fits g.numVertices settings.decompositionOptions.workers = true)
    (hm : settings.workers ≤ 1 ∨ OrderFree (Payload.merge : Sparse W → Sparse W → Sparse W))
    (inside : KeysInside g) (schedule : ComputeSchedule) :
    (∃ summary, (collect g settings schedule).result = .ok summary) ∧
      ∀ v, (collect g settings schedule).graph.value? v =
        (g.value? v).map (collected settings.collectSettings g v) := by
  have new : Engine.create Collection.program VertexMap.empty g.numVertices
      settings.collectionOptions = .ok (collector settings g.numVertices) :=
    Engine.create_eq_ofProgram fits
  obtain ⟨hcount, hresult, hvalue⟩ := collects hf inside rfl new
    (hm.imp ComputeSettings.workers_le_one fun h s => h.anyOrder _ _)
    schedule.transformation schedule.collection
  rw [collect_of_ok hcount]
  exact ⟨hresult, hvalue⟩

end Collect

/-! ### A query -/

namespace ComputeSettings

variable (settings : ComputeSettings W) (sources : Option VertexSet) (g : Graph (VertexState W))

/-- The strand of a source when the decomposition is over. -/
def strand (s : VertexId) : Strand W :=
  Strand.idle.rounds (settings.flowSettings sources) g
    (seedOf (settings.flowSettings sources) g s) (settings.niters + 1) (settings.niters + 1)

/-- What vertex `u` sends to a source. -/
def parcel (s u : VertexId) : Option (Sparse W) :=
  (g.value? u).bind fun value => owed settings.collectSettings u value.ppr
    ((settings.strand sources g s).flow u) ((settings.strand sources g s).residual u)

/-- What a source gets. -/
def answer (s : VertexId) : Option (Sparse W) :=
  mergeAllInto Payload.merge none (g.ids.filterMap (settings.parcel sources g s))

variable {settings sources g} {s : VertexId}

theorem strand_of_seedOf_eq_none (hs : seedOf (settings.flowSettings sources) g s = none) :
    settings.strand sources g s = Strand.idle := by
  rw [strand, hs, Strand.rounds_none]

/-- What is not seeded gets nothing. -/
theorem answer_of_seedOf_eq_none (hs : seedOf (settings.flowSettings sources) g s = none) :
    settings.answer sources g s = none := by
  have hnone : settings.parcel sources g s = fun _ => none := by
    funext u
    rw [parcel, strand_of_seedOf_eq_none hs]
    cases g.value? u with
    | none => rfl
    | some value =>
      by_contra h
      rcases exists_entry_of_owed h with h | h <;> exact h rfl
  rw [answer, hnone, List.filterMap_none]
  rfl

end ComputeSettings

/-- What a query makes of a fresh graph. -/
structure Answers (settings : ComputeSettings W) (sources : Option VertexSet)
    (g g' : Graph (VertexState W)) : Prop where
  ppr : ∀ v, (g'.value? v).map VertexState.ppr =
    (g.value? v).map fun value => settled value.ppr (settings.answer sources g v)
  flow : ∀ v s, (g'.value? v).bind (·.flow.get? s) = (settings.strand sources g s).flow v

section Compute

variable {settings : ComputeSettings W} {sources : Option VertexSet}
  {g gd : Graph (VertexState W)}

/-- What a source finds is made of its own strand and the vectors that were there before. -/
theorem homeward_eq_answer
    (h : Decomposed (settings.flowSettings sources) (settings.niters + 1) g gd) (s : VertexId) :
    homeward settings.collectSettings gd s = settings.answer sources g s := by
  have hids : gd.ids = g.ids := by rw [Graph.ids, h.size, ← Graph.ids]
  rw [homeward, ComputeSettings.answer, hids]
  refine congrArg _ (List.filterMap_congr fun u _ => ?_)
  have hppr := h.ppr u
  have hflow := h.flow s u
  have hresidual := h.residual s u
  rw [owedAt, ComputeSettings.parcel]
  cases hd : gd.value? u with
  | none =>
    rw [hd, Option.map_none, eq_comm, Option.map_eq_none_iff] at hppr
    rw [hppr]
    rfl
  | some value =>
    rw [hd, Option.map_some, eq_comm, Option.map_eq_some_iff] at hppr
    obtain ⟨old, hold, hppr⟩ := hppr
    rw [hd, Option.bind_some] at hflow hresidual
    rw [hold, Option.bind_some, Option.bind_some, hppr, hflow, hresidual]
    rfl

/-- Whatever has an entry after a decomposition is a vertex. -/
theorem Decomposed.keysInside {cap : Nat} {fs : FlowSettings W} (h : Decomposed fs cap g gd) :
    KeysInside gd := by
  intro u s value hu hentry
  rw [h.size]
  by_contra hle
  obtain ⟨hresidual, hflow⟩ := h.absent (seedOf_eq_none fun hs => hle hs.2) u
  rw [hu, Option.bind_some] at hresidual hflow
  exact hentry.elim (· hflow) (· hresidual)

/-- What a collection makes of a graph that was decomposed. -/
theorem answers_collect (h : Decomposed (settings.flowSettings sources) (settings.niters + 1) g gd)
    (fits : Tiling.fits g.numVertices settings.decompositionOptions.workers = true)
    (hm : settings.workers ≤ 1 ∨ OrderFree (Payload.merge : Sparse W → Sparse W → Sparse W))
    (schedule : ComputeSchedule) :
    (∃ summary, (collect gd settings schedule).result = .ok summary) ∧
      Answers settings sources g (collect gd settings schedule).graph := by
  obtain ⟨hresult, hvalue⟩ :=
    collect_eq h.finalized (h.size ▸ fits) hm h.keysInside schedule
  refine ⟨hresult, fun v => ?_, fun v s => ?_⟩
  · calc ((collect gd settings schedule).graph.value? v).map VertexState.ppr
        = ((gd.value? v).map VertexState.ppr).map fun ppr =>
            settled ppr (settings.answer sources g v) := by
          rw [hvalue, Option.map_map, Option.map_map, ← homeward_eq_answer h]
          rfl
      _ = (g.value? v).map fun value => settled value.ppr (settings.answer sources g v) := by
          rw [h.ppr, Option.map_map]
          rfl
  · calc ((collect gd settings schedule).graph.value? v).bind (·.flow.get? s)
        = (gd.value? v).bind (·.flow.get? s) := by
          rw [hvalue]
          cases gd.value? v <;> rfl
      _ = (settings.strand sources g s).flow v := h.flow s v

theorem compute_of_ok [JsonWeight W] (fits : settings.fits g.numVertices = true)
    (schedule : ComputeSchedule) {decomposition : RunSummary}
    (h : (decompose g settings sources schedule.decomposition).result = .ok decomposition) :
    (compute g settings sources schedule).graph =
        (collect (decompose g settings sources schedule.decomposition).graph settings
          schedule).graph ∧
      (compute g settings sources schedule).result =
        (collect (decompose g settings sources schedule.decomposition).graph settings
          schedule).result.map fun collection => ⟨decomposition, collection⟩ := by
  rw [compute, if_pos fits, computeOn]
  simp only [h, and_self]

/-- **A query gives every source what its own strand brings**, and succeeds. -/
theorem answers_compute [JsonWeight W] (hf : g.finalized = true) (fresh : IsFresh g)
    (fits : settings.fits g.numVertices = true)
    (law : ∀ w, settings.threshold < w → Sparse.FromZero w)
    (hm : settings.workers ≤ 1 ∨ OrderFree (Payload.merge : Sparse W → Sparse W → Sparse W))
    (sources : Option VertexSet) (schedule : ComputeSchedule) :
    (∃ summary, (compute g settings sources schedule).result = .ok summary) ∧
      Answers settings sources g (compute g settings sources schedule).graph := by
  have hfits : Tiling.fits g.numVertices settings.decompositionOptions.workers = true :=
    (Bool.and_eq_true_iff.1 fits).2
  have hcreate : Engine.create (Decomposition.program (settings.flowSettings sources))
      VertexMap.empty g.numVertices settings.decompositionOptions = .ok _ :=
    Engine.create_eq_ofProgram hfits
  obtain ⟨⟨decomposition, hresult⟩, hdone, -⟩ := decomposed_of_create hcreate hf fresh law
    (hm.imp_left ComputeSettings.workers_le_one) (fun h => absurd h Bool.false_ne_true)
    schedule.decomposition
  obtain ⟨hgraph, hmap⟩ := compute_of_ok fits schedule hresult
  obtain ⟨⟨collection, hcollection⟩, hanswers⟩ := answers_collect hdone hfits hm schedule
  refine ⟨⟨⟨decomposition, collection⟩, ?_⟩, hgraph ▸ hanswers⟩
  rw [hmap]
  exact congrArg (Except.map _) hcollection

end Compute

end Superstep.PageRank
