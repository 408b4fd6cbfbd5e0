import Superstep.PageRank.Collection
import Superstep.Proofs.Engine.Start
import Superstep.Proofs.Engine.Transform
import Superstep.Proofs.Sparse

/-!
# What the sources are sent

Forwarding goes through two vectors of a vertex in turn, and what it does for one source must not
depend on the others. It does not, because every source has one entry in each: the residual that a
source still has when its flow comes up is the one that the vertex started with, and afterwards it
has one exactly if its flow did not take it along. So every vertex sends every source one parcel or
none, and `owed` says which.

## Main results

* `arrivals_forward`: what one vertex sends to one source
* `value?_round_collection`: what stands at a vertex once everything has arrived
-/

namespace Superstep.PageRank

open Collection

variable {W : Type} [Weight W]

/-! ### Forwarding -/

/-- The part of an entry that is forwarded on its own account. -/
def worthSending (settings : CollectSettings W) (weight : Option W) : Option W :=
  weight.filter fun w => ¬ w < settings.threshold

/-- What vertex `id` sends to a source, given what it has of that source. -/
def owed (settings : CollectSettings W) (id : VertexId) (ppr : Sparse W)
    (flow retained : Option W) : Option (Sparse W) :=
  match worthSending settings (if settings.noIndex then none else flow) with
  | some weight => some (worth id ppr weight retained)
  | none => (worthSending settings retained).map (VertexMap.singleton id)

theorem worthSending_none (settings : CollectSettings W) : worthSending settings none = none := rfl

theorem worthSending_some (settings : CollectSettings W) (w : W) :
    worthSending settings (some w) = if w < settings.threshold then none else some w := by
  rw [worthSending, Option.filter_some]
  by_cases h : w < settings.threshold <;> simp [h]

/-- What flow brings to a source, and what is left of its residual. -/
theorem arrivals_forwardFlow (settings : CollectSettings W) (id : VertexId) (ppr : Sparse W)
    {flow : List (VertexId × W)} (ascending : Ascending flow) (residual : Sparse W)
    (s : VertexId) :
    Accumulator.arrivals s ((forwardFlow settings id ppr flow residual).1.map Prod.fst) =
        ((worthSending settings (VertexMap.lookup s flow)).map
          fun weight => worth id ppr weight (residual.get? s)).toList ∧
      (forwardFlow settings id ppr flow residual).2.get? s =
        if (worthSending settings (VertexMap.lookup s flow)).isSome then none
        else residual.get? s := by
  induction flow generalizing residual with
  | nil => exact ⟨rfl, rfl⟩
  | cons entry rest ih =>
    obtain ⟨source, weight⟩ := entry
    obtain ⟨hsource, hrest⟩ := List.pairwise_cons.1 ascending
    -- a source comes up once
    have hnone : VertexMap.lookup source rest = none := VertexMap.lookup_eq_none_of_lt hsource
    rw [VertexMap.lookup_cons]
    by_cases hw : weight < settings.threshold
    · obtain ⟨harrivals, hleft⟩ := ih hrest residual
      rw [forwardFlow, if_pos hw, harrivals, hleft]
      by_cases hs : source = s
      · subst hs
        simp [hnone, worthSending_some, worthSending_none, hw]
      · rw [if_neg hs]
        exact ⟨rfl, rfl⟩
    · obtain ⟨harrivals, hleft⟩ := ih hrest (residual.erase source)
      rw [forwardFlow, if_neg hw]
      simp only [List.map_cons, Accumulator.arrivals_cons, harrivals, hleft,
        VertexMap.get?_erase]
      by_cases hs : source = s
      · subst hs
        simp [hnone, worthSending_some, worthSending_none, hw]
      · simp [hs, Ne.symm hs]

theorem arrivals_forwardResidual (settings : CollectSettings W) (id : VertexId)
    (residual : Sparse W) (s : VertexId) :
    Accumulator.arrivals s ((forwardResidual settings id residual).map Prod.fst) =
      ((worthSending settings (residual.get? s)).map (VertexMap.singleton id)).toList := by
  have hlist : ∀ entries : List (VertexId × W), Ascending entries →
      Accumulator.arrivals s ((entries.filterMap fun entry =>
        if entry.2 < settings.threshold then none
        else some ((⟨entry.1, VertexMap.singleton id entry.2⟩, residual) : Parcel W)).map
          Prod.fst) =
      ((worthSending settings (VertexMap.lookup s entries)).map
        (VertexMap.singleton id)).toList := by
    intro entries ascending
    induction entries with
    | nil => rfl
    | cons entry rest ih =>
      obtain ⟨source, weight⟩ := entry
      obtain ⟨hsource, hrest⟩ := List.pairwise_cons.1 ascending
      have hnone : VertexMap.lookup source rest = none := VertexMap.lookup_eq_none_of_lt hsource
      rw [VertexMap.lookup_cons, List.filterMap_cons]
      by_cases hw : weight < settings.threshold
      · simp only [if_pos hw]
        rw [ih hrest]
        by_cases hs : source = s
        · subst hs
          simp [hnone, worthSending_some, worthSending_none, hw]
        · rw [if_neg hs]
      · simp only [if_neg hw, List.map_cons, Accumulator.arrivals_cons]
        rw [ih hrest]
        by_cases hs : source = s
        · subst hs
          simp [hnone, worthSending_some, worthSending_none, hw]
        · simp [hs]
  exact hlist residual.entries residual.ascending

/-- **Every vertex sends every source what it owes it**, as one parcel or none. -/
theorem arrivals_forward (settings : CollectSettings W) (c : Context) (site : Site)
    (value : VertexState W) (s : VertexId) :
    Accumulator.arrivals s ((forward settings c site value).1.map Emission.signal) =
      (owed settings site.id value.ppr (value.flow.get? s) (value.residual.get? s)).toList := by
  have hsignals : (forward settings c site value).1.map Emission.signal =
      (forwardFlow settings site.id value.ppr
          (if settings.noIndex then [] else value.flow.entries) value.residual).1.map Prod.fst ++
        (forwardResidual settings site.id (forwardFlow settings site.id value.ppr
          (if settings.noIndex then [] else value.flow.entries) value.residual).2).map
            Prod.fst := by
    simp only [forward, List.map_map, List.map_append]
    rfl
  have hascending : Ascending (if settings.noIndex then [] else value.flow.entries) := by
    split
    · exact List.Pairwise.nil
    · exact value.flow.ascending
  have hlookup : VertexMap.lookup s (if settings.noIndex then [] else value.flow.entries) =
      if settings.noIndex then none else value.flow.get? s := by
    split <;> rfl
  obtain ⟨harrivals, hleft⟩ :=
    arrivals_forwardFlow settings site.id value.ppr hascending value.residual s
  rw [hsignals, Accumulator.arrivals_append, arrivals_forwardResidual, harrivals, hleft, hlookup,
    owed]
  cases worthSending settings (if settings.noIndex then none else value.flow.get? s) with
  | none => simp
  | some weight => simp [worthSending_none]

/-! ### What arrives -/

/-- What vertex `u` of a graph sends to source `s`. -/
def owedAt (settings : CollectSettings W) (g : Graph (VertexState W)) (s u : VertexId) :
    Option (Sparse W) :=
  (g.value? u).bind fun value =>
    owed settings u value.ppr (value.flow.get? s) (value.residual.get? s)

/-- What a source finds when everything has arrived. -/
def homeward (settings : CollectSettings W) (g : Graph (VertexState W)) (s : VertexId) :
    Option (Sparse W) :=
  mergeAllInto Payload.merge none (g.ids.filterMap (owedAt settings g s))

/-- The vector of a vertex once its arrivals are in place. -/
def settled (old : Sparse W) (arrived : Option (Sparse W)) : Sparse W :=
  (arrived.filter (!·.isEmpty)).getD old

section Arrivals

variable {settings : CollectSettings W} {g : Graph (VertexState W)}

/-- What a source is sent by a vertex is what the vertex owes it. -/
theorem arrivals_emitted_vertex {hf : g.finalized = true} {c : Context}
    {v : Vertex (VertexState W)} (hv : v ∈ (g.network hf).vertices) (s : VertexId) :
    Accumulator.arrivals s (Engine.emitted (forward settings) c v) =
      (owedAt settings g s v.id).toList := by
  have hvalue : g.value? v.id = some v.value :=
    Graph.value?_eq_value (Network.network_eq_of_mem hv)
  rw [Engine.emitted, arrivals_forward, owedAt, hvalue, Option.bind_some]
  rfl

theorem arrivals_emitted (hf : g.finalized = true) (c : Context) (s : VertexId) :
    Accumulator.arrivals s ((g.network hf).vertices.flatMap
        (Engine.emitted (forward settings) c)) = g.ids.filterMap (owedAt settings g s) := by
  rw [Accumulator.arrivals_flatMap, ← Graph.map_id_vertices hf, List.filterMap_map,
    List.filterMap_eq_flatMap_toList]
  exact List.flatMap_congr fun v hv => arrivals_emitted_vertex hv s

/-- Whoever is sent something has an entry at the sender. -/
theorem exists_entry_of_owed {id : VertexId} {ppr : Sparse W} {flow retained : Option W}
    (h : owed settings id ppr flow retained ≠ none) : flow ≠ none ∨ retained ≠ none := by
  by_contra hnone
  rw [not_or, not_not, not_not] at hnone
  obtain ⟨rfl, rfl⟩ := hnone
  refine h ?_
  rw [owed, ite_self]
  rfl

end Arrivals

/-! ### The engine -/

omit [Weight W] in
theorem onlyScatters_collection : (program : VertexProgram (Sparse W) _ _ _).OnlyScatters :=
  .of_asides rfl

omit [Weight W] in
/-- The program of a collection sends nothing. -/
theorem staysInside_collection : (program : VertexProgram (Sparse W) _ _ _).StaysInside := by
  refine .of_asides rfl fun c v state signal h => ?_
  simp [VertexProgram.signals, program, Vertex.links, Direction.includesIn,
    Direction.includesOut] at h

omit [Weight W] in
theorem valueBehind_collection {t : Tableau (VertexState W) (Sparse W)}
    {m : Machine (Sparse W) (VertexState W) (Sparse W) Unit} (hp : m.program = program) (r : Nat)
    (v : Vertex (VertexState W)) :
    t.valueBehind m r v = { v.value with ppr := settled v.value.ppr (t.pending v.id) } := by
  rw [Tableau.valueBehind]
  cases t.pending v.id with
  | none => rfl
  | some arrived =>
    simp only [Machine.turn, hp, program]
    rw [settled, Option.filter_some]
    by_cases h : arrived.isEmpty = true
    · simp [h]
    · simp [h]

theorem value?_round_collection {t : Tableau (VertexState W) (Sparse W)}
    {m : Machine (Sparse W) (VertexState W) (Sparse W) Unit} (hp : m.program = program) (r : Nat)
    (v : VertexId) :
    (t.round m r).graph.value? v = (t.graph.value? v).map fun value =>
      { value with ppr := settled value.ppr (t.pending v) } := by
  have hvalues : t.values m r = t.network.vertices.map fun v =>
      { v.value with ppr := settled v.value.ppr (t.pending v.id) } :=
    List.map_congr_left fun v _ => valueBehind_collection hp r v
  rw [Tableau.graph_round, hvalues]
  exact Graph.value?_overwrite_map t.finalized
    (fun id value => { value with ppr := settled value.ppr (t.pending id) }) v

end Superstep.PageRank
