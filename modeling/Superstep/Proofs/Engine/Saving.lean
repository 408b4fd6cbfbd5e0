import Superstep.Proofs.Engine.Refinement

/-!
# Rounds in which states can be saved

An engine that saves its states between apply and scatter goes through apply if all of them can be
saved. Values and slots behind apply are then what they would be without saving, and what follows is
the scatter phase, which may fail. The states of which this is asked are those in which the turns of
the vertices end.

## Main definitions

* `Engine.ideal`: the rounds of an engine that keeps its states as they are
* `Engine.LeftByApply`: the states that a round brings behind apply

## Main results

* `Engine.Regular.step_of_saves`: a step in which vertices take part
-/

namespace Superstep

variable {S D M G : Type}

namespace Engine

/-- The states that a step brings behind apply, if nothing breaks off: those in which the turns of
its vertices end. -/
def LeftByApply [Payload G] [Inhabited G] (e : Engine S D M G) (g : Graph D) (state : S) : Prop :=
  ∃ (hf : g.finalized = true) (v : Vertex D) (payload : M),
    g.numVertices = e.accumulator.size ∧ e.round < e.options.maxRounds ∧
      v.network = g.network hf ∧ e.accumulator.peek v.id = some payload ∧
        state = (e.machine.turn (e.context (g.network hf)) v payload).1

/-- The rounds of an engine that keeps its states as they are. -/
def ideal (e : Engine S D M G) : Machine S D M G :=
  ⟨e.program, e.prototype, id, e.options.maxRounds⟩

section Saving

variable [Payload M] [Payload G] [Inhabited G] {e : Engine S D M G} {g : Graph D}
  (w : Regular e) (hf : g.finalized = true) (hs : g.numVertices = e.accumulator.size)
  (cap : e.round < e.options.maxRounds)
  (saves : e.options.persist = true → ∀ state, e.LeftByApply g state →
    ∃ bytes, e.program.save state = .ok bytes)

omit [Payload M] in
include hs cap in
/-- A live slot behind gather becomes a state that is left by apply. -/
theorem leftByApply_of_started {v : Vertex D} (hv : v ∈ (g.network hf).vertices) {state : S}
    {total : G} (h : e.started (g.network hf) v = .live state total) :
    e.LeftByApply g
      (e.program.apply (e.context (g.network hf)) v.site total state v.value).1 := by
  cases hp : e.accumulator.peek v.id with
  | none =>
    rw [started_of_none hp] at h
    cases h
  | some payload =>
    rw [started_of_some hp] at h
    cases h
    exact ⟨hf, v, payload, hs, cap, Network.network_eq_of_mem hv, hp, rfl⟩

include w hs cap saves

theorem Regular.applyPhase_of_saves (picks picks' : List Nat) :
    (e.gathered (g.network hf) picks).applyPhase (g.network hf) picks' =
      ({ e.gathered (g.network hf) picks with
          slots := overlay (e.gathered (g.network hf) picks).slots
            (((g.network hf).vertices.map fun v => (v, e.started (g.network hf) v)).map
              (e.program.slotOf (e.context (g.network hf)) e.options.persist)) },
        (e.tableau g hf).values e.ideal e.round, none) := by
  have hn := w.topology_size hf hs
  have hshape := w.sameShape_gathered hn picks
  have hocc := w.occupants_gathered hn (g.topology_size_le hf) picks
  rw [(w.of_sameShape hshape).applyPhase_eq_of_save (hn.trans hshape.size_slots.symm),
    context_gathered, hocc]
  · refine Prod.ext rfl (Prod.ext ?_ rfl)
    show List.map _ _ = List.map _ _
    rw [List.map_map]
    refine List.map_congr_left fun v _ => ?_
    rw [Function.comp_apply, Tableau.valueBehind]
    cases hp : e.accumulator.peek v.id with
    | none =>
      rw [started_of_none hp, show (e.tableau g hf).pending v.id = none from hp]
      rfl
    | some payload =>
      rw [started_of_some hp, show (e.tableau g hf).pending v.id = some payload from hp,
        context_eq hf hs]
      rfl
  · intro persist v state total hm
    rw [context_gathered]
    rw [hocc] at hm
    obtain ⟨u, hu, he⟩ := List.mem_map.1 hm
    obtain ⟨rfl, hlive⟩ := Prod.mk.inj he
    exact saves persist _ (leftByApply_of_started hf hs cap hu hlive)

/-- What scatter finds at the vertices. -/
theorem Regular.occupants_applied_of_saves (schedule : Schedule) :
    (e.applied (g.network hf) schedule).occupants ((g.network hf).withValues
        ((e.tableau g hf).values e.ideal e.round)) =
      (g.network hf).vertices.map fun v =>
        (v.withValues ((e.tableau g hf).values e.ideal e.round),
          e.program.slotOf (e.context (g.network hf)) e.options.persist
            (v, e.started (g.network hf) v)) := by
  have hn := w.topology_size hf hs
  have hsize := (w.sameShape_gathered hn schedule.gather).size_slots
  have hslots : (e.applied (g.network hf) schedule).slots.toList =
      (g.network hf).vertices.map fun v => e.program.slotOf (e.context (g.network hf))
        e.options.persist (v, e.started (g.network hf) v) := by
    rw [applied, w.applyPhase_of_saves hf hs cap saves, List.map_map]
    exact toList_overlay (by simp [hn, hsize])
  rw [occupants, hslots, Network.vertices_withValues, List.zip_map']

/-- A step in which vertices take part, whether it saves states or not. -/
theorem Regular.step_of_saves (schedule : Schedule)
    (active : (e.gatherPhase (g.network hf) schedule.gather).1.numActive ≠ 0) :
    e.step g schedule =
      conclude (g.overwrite ((e.tableau g hf).values e.ideal e.round))
        ((e.applied (g.network hf) schedule).scatterPhase
          ((g.network hf).withValues ((e.tableau g hf).values e.ideal e.round))
            schedule.scatter) := by
  have hn := w.topology_size hf hs
  have happly := congrArg Prod.snd
    (w.applyPhase_of_saves hf hs cap saves schedule.gather schedule.apply)
  rw [step_eq_stepOn hf hs, w.stepOn_eq_enterApply hf cap,
    enterApply_of_active hf (w.gatherPhase_snd hn (g.topology_size_le hf) _) active]
  simp only [happly]
  rfl

end Saving

end Engine

end Superstep
