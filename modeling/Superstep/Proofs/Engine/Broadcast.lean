import Superstep.Proofs.Engine.Tableau

/-!
# Broadcasts

Many programs send one payload over all out-links of a vertex. Read from the other end of the links,
such a round is simple: what arrives at a vertex is what its sources sent, in ascending order.

## Main results

* `Graph.arrivals_broadcast`: a round of broadcasts, as its receivers see it
-/

namespace Superstep

variable {M : Type}

namespace Accumulator

/-- One payload for every vertex in a list that names none twice. -/
theorem arrivals_map_target (v : VertexId) (payload : M) {targets : List VertexId}
    (nodup : targets.Nodup) :
    arrivals v (targets.map fun w => ⟨w, payload⟩) = if v ∈ targets then [payload] else [] := by
  induction targets with
  | nil => rfl
  | cons w targets ih =>
    obtain ⟨hw, nodup⟩ := List.nodup_cons.1 nodup
    rw [List.map_cons, arrivals_cons, ih nodup]
    by_cases h : w = v
    · subst h
      simp [hw]
    · simp [h, Ne.symm h]

end Accumulator

theorem flatMap_ite_toList {α β : Type} (p : α → Prop) [DecidablePred p] (f : α → Option β)
    (l : List α) :
    l.flatMap (fun a => if p a then (f a).toList else []) = (l.filter p).filterMap f := by
  induction l with
  | nil => rfl
  | cons a l ih =>
    rw [List.flatMap_cons, ih, List.filter_cons]
    by_cases h : p a
    · cases hf : f a <;> simp [h, hf]
    · simp [h]

namespace Graph

variable {D : Type} {g : Graph D}

/-- What vertices send that send one payload over all of their out-links, or nothing. -/
def broadcast (g : Graph D) (sends : VertexId → Option M) (u : VertexId) : List (Signal M) :=
  (sends u).elim [] fun payload => (g.targetsOf u).map fun w => ⟨w, payload⟩

/-- **What arrives of broadcasts is what the sources sent**, in ascending order. -/
theorem arrivals_broadcast (hf : g.finalized = true) (sends : VertexId → Option M)
    (v : VertexId) :
    Accumulator.arrivals v (g.ids.flatMap (g.broadcast sends)) =
      (g.sourcesOf v).filterMap sends := by
  have hone : ∀ u, Accumulator.arrivals v (g.broadcast sends u) =
      if v ∈ g.targetsOf u then (sends u).toList else [] := by
    intro u
    rw [broadcast]
    cases sends u with
    | none => simp [Accumulator.arrivals]
    | some payload =>
      exact Accumulator.arrivals_map_target v payload
        ((pairwise_targetsOf hf u).imp UInt32.ne_of_lt)
  simp only [Accumulator.arrivals_flatMap, hone]
  rw [flatMap_ite_toList fun u => v ∈ g.targetsOf u]
  rw [filter_ids_eq_sourcesOf hf]

end Graph

end Superstep
