import Superstep.Proofs.Engine.Figures
import Superstep.Proofs.Engine.Refinement

/-!
# Transformations

A transformation goes over the vertices outside of rounds. The workers share the vertices as they
do in a round, and what they send is delivered in the same way, so the same two facts about shares
and deliveries make it a map over all vertices: every vertex gets the value that the transformation
gives it, and finds pending what was sent to it, merged into what was pending before.

## Main results

* `WellShaped.transform_eq`: a transformation whose signals stay inside
-/

namespace Superstep

namespace Engine

variable {S D M G : Type} {e : Engine S D M G} {g : Graph D}

/-- The signals of one vertex. -/
def emitted (transformation : Transformation D M) (c : Context) (v : Vertex D) :
    List (Signal M) :=
  (transformation c v.site v.value).1.map Emission.signal

/-- The signals of all vertices, one vertex after the other. -/
def emittedBy (e : Engine S D M G) (n : Network D) (transformation : Transformation D M) :
    List (Signal M) :=
  n.vertices.flatMap (emitted transformation (e.context n))

theorem transform_eq_transformOn [Payload M] (w : WellShaped e) (hf : g.finalized = true)
    (hs : g.numVertices = e.accumulator.size) (transformation : Transformation D M)
    (picks : List Nat) :
    e.transform g transformation picks = e.transformOn g hf transformation picks := by
  unfold transform
  split
  · rename_i hr
    rw [refusal_eq_none hf hs] at hr
    cases hr
  · rw [if_pos w.tiled]

theorem WellShaped.length_vertices (w : WellShaped e) (hf : g.finalized = true)
    (hs : g.numVertices = e.accumulator.size) :
    (g.network hf).vertices.length = e.slots.size := by
  rw [Network.length_vertices, w.topology_size hf hs]

/-- The engine behind a transformation of which nothing fails, except for its count of signals. -/
def delivered [Payload M] (e : Engine S D M G) (n : Network D)
    (transformation : Transformation D M) (picks : List Nat) : Engine S D M G :=
  let cleared : Engine S D M G := { e with workers := e.workers.map Worker.reset }
  cleared.deliverLanes picks ((e.share n.vertices).map fun share =>
    (share.2.flatMap (emitted transformation (e.context n)), true))

section

variable {transformation : Transformation D M} {hf : g.finalized = true}
  (inside : ∀ v ∈ (g.network hf).vertices, ∀ signal ∈
    emitted transformation (e.context (g.network hf)) v,
      signal.target.toNat < e.accumulator.size)
include inside

theorem WellShaped.transformOn_eq [Payload M] (w : WellShaped e)
    (hs : g.numVertices = e.accumulator.size) (picks : List Nat) :
    e.transformOn g hf transformation picks =
      { engine :=
          { e.delivered (g.network hf) transformation picks with
            signals := e.signals + (e.delivered (g.network hf) transformation picks).numSent }
        graph := g.overwrite ((g.network hf).vertices.map fun v =>
          (transformation (e.context (g.network hf)) v.site v.value).2)
        result := .ok (e.delivered (g.network hf) transformation picks).numSent } := by
  have hlen := w.length_vertices hf hs
  have hall : e.transformedBy (g.network hf) transformation =
    (e.share (g.network hf).vertices).map fun share =>
      ⟨share.2.flatMap (emitted transformation (e.context (g.network hf))),
        share.2.map fun v => (transformation (e.context (g.network hf)) v.site v.value).2,
        none⟩ := by
    refine List.map_congr_left fun share hshare => transformAll_eq fun v hv emission hem => ?_
    exact inside v (w.mem_of_mem_share hlen hshare hv) _ (List.mem_map_of_mem hem)
  have hfail : firstFailure ((e.share (g.network hf).vertices).map
      fun _ => (none : Option Failure)) = none := firstFailure_none _
  simp only [transformOn, hall, List.map_map, List.flatMap_map, w.map_share hlen,
    Function.comp_def, Option.map_none, Option.isNone_none, hfail]
  rfl

theorem WellShaped.peek_delivered [Payload M] (w : WellShaped e)
    (hs : g.numVertices = e.accumulator.size) (picks : List Nat) {v : VertexId}
    (hm : Settles e.workers.length (e.accumulator.peek v)
      (Accumulator.arrivals v (e.emittedBy (g.network hf) transformation))) :
    (e.delivered (g.network hf) transformation picks).accumulator.peek v =
      mergeAllInto Payload.merge (e.accumulator.peek v)
        (Accumulator.arrivals v (e.emittedBy (g.network hf) transformation)) :=
  w.peek_deliverLanes_share (w.length_vertices hf hs) _ inside picks hm

omit inside in
/-- What is counted is every signal of every vertex. -/
theorem WellShaped.numSent_delivered [Payload M] (w : WellShaped e)
    (hs : g.numVertices = e.accumulator.size) (picks : List Nat) :
    (e.delivered (g.network hf) transformation picks).numSent =
      (e.emittedBy (g.network hf) transformation).length := by
  have hlen := w.length_vertices hf hs
  rw [delivered, numSent_deliverLanes, List.flatMap_map, w.flatMap_share hlen, emittedBy]
  · rw [List.length_map, w.length_share hlen, List.length_map]
  · intro lane hlane
    obtain ⟨share, -, rfl⟩ := List.mem_map.1 hlane
    rfl

end

/-- What a transformation leads to. -/
structure TransformsTo (e : Engine S D M G) (g : Graph D) (outcome : Outcome S D M G Nat)
    (count : Nat) (values : List D) (pending : VertexId → Option M) : Prop where
  result : outcome.result = .ok count
  graph : outcome.graph = g.overwrite values
  peek : ∀ v, outcome.engine.accumulator.peek v = pending v
  round : outcome.engine.round = e.round

/-- **A transformation whose signals stay inside goes vertex by vertex.** -/
theorem WellShaped.transform_eq [Payload M] (w : WellShaped e) (hf : g.finalized = true)
    (hs : g.numVertices = e.accumulator.size) (transformation : Transformation D M)
    (inside : ∀ v ∈ (g.network hf).vertices, ∀ signal ∈
      emitted transformation (e.context (g.network hf)) v,
        signal.target.toNat < e.accumulator.size)
    (hm : ∀ v, Settles e.workers.length (e.accumulator.peek v)
      (Accumulator.arrivals v (e.emittedBy (g.network hf) transformation)))
    (picks : List Nat) :
    TransformsTo e g (e.transform g transformation picks)
      (e.emittedBy (g.network hf) transformation).length
      ((g.network hf).vertices.map fun v =>
        (transformation (e.context (g.network hf)) v.site v.value).2)
      fun v => mergeAllInto Payload.merge (e.accumulator.peek v)
        (Accumulator.arrivals v (e.emittedBy (g.network hf) transformation)) := by
  rw [transform_eq_transformOn w hf hs, w.transformOn_eq inside hs]
  exact
    { result := congrArg Except.ok (w.numSent_delivered hs picks)
      graph := rfl
      peek := fun v => w.peek_delivered inside hs picks (hm v)
      round := rfl }

end Engine

end Superstep
