import Superstep.Proofs.Engine.Phases
import Superstep.Proofs.Engine.Tableau

/-!
# Rounds refine rounds without workers

An engine and a graph stand for a tableau. A step of the engine takes it to the next one, whatever
the number of workers and whatever order they come to their turns in; what the step answers is
whether the cap leaves another round. A run of the engine is as many rounds as the cap allows:
those that the engine does not make because nothing is pending would change nothing.

The order of deliveries enters in one place. Either there is only one worker, or the order does not
count: for no merge at all, which is `Confluent`, or for none of those that the run makes, which is
`Settling`. In either case what is sent is taken to fit what is pending, as an engine merges without
asking; `Accumulator.deliver_eq_of_addAll` is what this comes to.

## Main results

* `Regular.step_of_isQuiet`, `Steady.step_of_active`: a step, by cases
* `rounds_induction`: induction on the rounds that are left
* `Steady.run_eq_rounds`, `Runnable.run_eq_rounds`: a whole run
-/

namespace Superstep

namespace Engine

variable {S D M G : Type} {e : Engine S D M G} {g : Graph D}

/-- What scatter finds of a state that apply left behind. -/
def carry (e : Engine S D M G) (state : S) : S :=
  (e.program.kept e.options.persist e.prototype state).toOption.getD state

/-- What drives the rounds of an engine. -/
def machine (e : Engine S D M G) : Machine S D M G :=
  ⟨e.program, e.prototype, e.carry, e.options.maxRounds⟩

/-- What an engine and a graph stand for. -/
def tableau (e : Engine S D M G) (g : Graph D) (hf : g.finalized = true) : Tableau D M :=
  ⟨g, hf, e.accumulator.peek⟩

/-- Every state can be saved and loaded, as far as the options demand it. -/
def Carries (e : Engine S D M G) : Prop :=
  ∀ state, e.program.kept e.options.persist e.prototype state = .ok (e.carry state)

theorem carry_of_kept {state state' : S}
    (h : e.program.kept e.options.persist e.prototype state = .ok state') :
    e.carry state = state' := by
  rw [carry, h]
  rfl

theorem carries_of_kept
    (h : ∀ state, ∃ state', e.program.kept e.options.persist e.prototype state = .ok state') :
    e.Carries := by
  intro state
  obtain ⟨state', h⟩ := h state
  rw [h, carry_of_kept h]

theorem carries_of_load_save (h : ∀ state, ∃ bytes restored,
    e.program.save state = .ok bytes ∧ e.program.load bytes e.prototype = .ok restored) :
    e.Carries := by
  refine carries_of_kept fun state => ?_
  obtain ⟨bytes, restored, hs, hl⟩ := h state
  cases e.options.persist with
  | false => exact ⟨state, rfl⟩
  | true => exact ⟨restored, by simp [VertexProgram.kept, hs, hl, Except.bind]⟩

theorem SameShape.machine_eq {e e' : Engine S D M G} (h : SameShape e e') :
    e'.machine = e.machine := by
  have hcarry : e'.carry = e.carry :=
    funext fun state => by rw [carry, carry, h.program, h.prototype, h.options]
  rw [machine, machine, hcarry, h.program, h.prototype, h.options]

theorem Carries.of_sameShape {e e' : Engine S D M G} (hc : e.Carries) (h : SameShape e e') :
    e'.Carries := by
  intro state
  have := hc state
  rwa [carry, h.program, h.prototype, h.options]

theorem refusal_eq_none (hf : g.finalized = true) (hs : g.numVertices = e.accumulator.size) :
    e.refusal g = none := by
  rw [refusal, if_neg (by simp [hf]), if_neg (Classical.not_not.2 hs)]

theorem fits_of_refusal (h : e.refusal g = none) :
    g.finalized = true ∧ g.numVertices = e.accumulator.size := by
  have hf := finalized_of_refusal_eq_none h
  exact ⟨hf, (Graph.topology_size hf).trans (topology_size_of_refusal h hf)⟩

theorem WellShaped.topology_size (w : WellShaped e) (hf : g.finalized = true)
    (hs : g.numVertices = e.accumulator.size) : (g.network hf).topology.size = e.slots.size := by
  rw [w.size_slots, ← hs]
  exact (Graph.topology_size hf).symm

theorem context_eq (hf : g.finalized = true)
    (hs : g.numVertices = e.accumulator.size) :
    e.context (g.network hf) = (e.tableau g hf).context e.machine e.round := by
  rw [context, ← hs]
  rfl

/-- An engine and a graph that it can take through its rounds. -/
structure Runnable [Payload M] (e : Engine S D M G) (g : Graph D) : Prop where
  regular : Regular e
  finalized : g.finalized = true
  size : g.numVertices = e.accumulator.size
  confluent : Confluent M e.workers.length
  inside : e.program.StaysInside
  carries : e.Carries

/-- Nothing but the shape of the engine and the vertices of the graph count. -/
theorem Runnable.of_sameShape [Payload M] {e' : Engine S D M G} {g' : Graph D}
    (ready : Runnable e g) (h : SameShape e e') (hf : g'.finalized = true)
    (hsize : g'.numVertices = g.numVertices) : Runnable e' g' where
  regular := ready.regular.of_sameShape h
  finalized := hf
  size := by rw [hsize, ready.size, h.size_accumulator]
  confluent := h.length_workers ▸ ready.confluent
  inside := h.program ▸ ready.inside
  carries := ready.carries.of_sameShape h

/-- What the vertices are sent in the rounds that the cap leaves arrives in an order that is fixed
or does not count. -/
def Settling [Payload M] [Payload G] [Inhabited G] (e : Engine S D M G) (g : Graph D)
    (hf : g.finalized = true) : Prop :=
  ∀ k v, e.round + k < e.options.maxRounds → Settles e.workers.length none (Accumulator.arrivals v
    (((e.tableau g hf).rounds e.machine e.round k).sent e.machine (e.round + k)))

/-- An engine and a graph whose rounds settle. -/
structure Steady [Payload M] [Payload G] [Inhabited G] (e : Engine S D M G) (g : Graph D) :
    Prop where
  regular : Regular e
  finalized : g.finalized = true
  size : g.numVertices = e.accumulator.size
  inside : e.program.StaysInside
  carries : e.Carries
  settling : e.Settling g finalized

theorem Runnable.steady [Payload M] [Payload G] [Inhabited G] (ready : Runnable e g) :
    Steady e g where
  regular := ready.regular
  finalized := ready.finalized
  size := ready.size
  inside := ready.inside
  carries := ready.carries
  settling _ _ _ := ready.confluent.settles _ _

/-! ### The phases of one round -/

section Phases

variable [Payload M] [Payload G] [Inhabited G]

/-- The engine that enters the apply phase. -/
def gathered (e : Engine S D M G) (n : Network D) (picks : List Nat) : Engine S D M G :=
  { (e.gatherPhase n picks).1 with phase := .apply }

/-- The engine that enters the scatter phase. -/
def applied (e : Engine S D M G) (n : Network D) (schedule : Schedule) : Engine S D M G :=
  { ((e.gathered n schedule.gather).applyPhase n schedule.apply).1 with phase := .scatter }

theorem WellShaped.sameShape_gathered (w : WellShaped e) {n : Network D}
    (hn : n.topology.size = e.slots.size) (picks : List Nat) :
    SameShape e (e.gathered n picks) :=
  (w.sameShape_gatherPhase hn picks).trans (.phase _ .apply)

theorem WellShaped.sameShape_applied (w : WellShaped e) {n : Network D}
    (hn : n.topology.size = e.slots.size) (schedule : Schedule) :
    SameShape e (e.applied n schedule) :=
  (w.sameShape_gathered hn schedule.gather).trans
    ((sameShape_applyPhase ..).trans (.phase _ .scatter))

variable {n : Network D} {schedule : Schedule} {picks : List Nat}

theorem context_gathered : (e.gathered n picks).context n = e.context n := by
  have : (e.gathered n picks).accumulator.size = e.accumulator.size :=
    e.size_accumulator_gatherPhase n picks
  rw [context, this]
  rfl

theorem context_applied (values : List D) :
    (e.applied n schedule).context (n.withValues values) = e.context n := by
  have : (e.applied n schedule).accumulator.size = e.accumulator.size :=
    (sameShape_applyPhase ..).size_accumulator.trans (e.size_accumulator_gatherPhase n _)
  rw [context, this]
  rfl

theorem Regular.occupants_gathered (w : Regular e) (hn : n.topology.size = e.slots.size)
    (hle : n.topology.size ≤ UInt32.size) (picks : List Nat) :
    (e.gathered n picks).occupants n = n.vertices.map fun v => (v, e.started n v) := by
  have h : (e.gathered n picks).slots.toList = n.vertices.map (e.started n) :=
    w.slots_gatherPhase hn hle picks
  rw [occupants, h]
  exact List.map_prod_left_eq_zip.symm

theorem Carries.gathered (hc : e.Carries) (n : Network D) (picks : List Nat) :
    (e.gathered n picks).Carries := hc

theorem Regular.applyPhase_gathered (w : Regular e) (hn : n.topology.size = e.slots.size)
    (hc : e.Carries) (picks picks' : List Nat) :
    (e.gathered n picks).applyPhase n picks' =
      ({ e.gathered n picks with
          slots := overlay (e.gathered n picks).slots (((e.gathered n picks).occupants n).map
            (e.program.slotOf (e.context n) e.options.persist)) },
        ((e.gathered n picks).occupants n).map (e.program.valueOf (e.context n)), none) := by
  have h := w.sameShape_gathered hn picks
  rw [(w.of_sameShape h).applyPhase_eq (hn.trans h.size_slots.symm)
    (fun state => ⟨_, hc.gathered n picks state⟩) picks', context_gathered]
  rfl

omit [Payload M] in
theorem started_of_none {v : Vertex D} (h : e.accumulator.peek v.id = none) :
    e.started n v = .idle := by
  rw [started, h]
  rfl

omit [Payload M] in
theorem started_of_some {v : Vertex D} {payload : M} (h : e.accumulator.peek v.id = some payload) :
    e.started n v = .live (e.program.init (e.context n) v payload e.prototype)
      (e.program.gathered (e.context n) v
        (e.program.init (e.context n) v payload e.prototype)) := by
  rw [started, h, ← VertexProgram.total_eq_gathered]
  rfl

omit [Payload M] in
/-- What scatter finds of a vertex: the state in which its turn left it, if it took part. -/
theorem revive_started (hc : e.Carries) (v : Vertex D) :
    e.program.revive e.prototype
        (e.program.slotOf (e.context n) e.options.persist (v, e.started n v)) =
      .ok ((e.accumulator.peek v.id).map fun payload =>
        e.carry (e.machine.turn (e.context n) v payload).1) := by
  cases h : e.accumulator.peek v.id with
  | none =>
    rw [started_of_none h]
    rfl
  | some payload =>
    rw [started_of_some h, VertexProgram.revive_slotOf hc]
    rfl

variable (hf : g.finalized = true) (hs : g.numVertices = e.accumulator.size)
include hs

/-- The values behind apply are those of the tableau. -/
theorem Regular.values_applied (w : Regular e) (hc : e.Carries) (picks picks' : List Nat) :
    ((e.gathered (g.network hf) picks).applyPhase (g.network hf) picks').2.1 =
      (e.tableau g hf).values e.machine e.round := by
  have hn := w.topology_size hf hs
  rw [w.applyPhase_gathered hn hc]
  show List.map _ _ = List.map _ _
  rw [w.occupants_gathered hn (g.topology_size_le hf), List.map_map]
  refine List.map_congr_left fun v _ => ?_
  rw [Function.comp_apply, Tableau.valueBehind, ← context_eq hf hs]
  cases h : e.accumulator.peek v.id with
  | none =>
    rw [started_of_none h, show (e.tableau g hf).pending v.id = none from h]
    rfl
  | some payload =>
    rw [started_of_some h, show (e.tableau g hf).pending v.id = some payload from h]
    rfl

theorem Regular.occupants_applied (w : Regular e) (hc : e.Carries)
    (values : List D) :
    (e.applied (g.network hf) schedule).occupants ((g.network hf).withValues values) =
      (g.network hf).vertices.map fun v => (v.withValues values,
        e.program.slotOf (e.context (g.network hf)) e.options.persist
          (v, e.started (g.network hf) v)) := by
  have hn := w.topology_size hf hs
  have hsize := (w.sameShape_gathered hn schedule.gather).size_slots
  have hslots : (e.applied (g.network hf) schedule).slots.toList =
      (g.network hf).vertices.map fun v => e.program.slotOf (e.context (g.network hf))
        e.options.persist (v, e.started (g.network hf) v) := by
    have h := w.applyPhase_gathered hn hc schedule.gather schedule.apply
    rw [applied, h, w.occupants_gathered hn (g.topology_size_le hf), List.map_map]
    exact toList_overlay (by simp [hn, hsize])
  rw [occupants, hslots, Network.vertices_withValues]
  exact List.zip_map' ..

omit [Payload M] in
/-- What a vertex sends is what it sends in the tableau. -/
theorem signalsIn_started (hc : e.Carries) (v : Vertex D) :
    e.program.signalsIn e.prototype (e.context (g.network hf))
        (v.withValues ((e.tableau g hf).values e.machine e.round),
          e.program.slotOf (e.context (g.network hf)) e.options.persist
            (v, e.started (g.network hf) v)) =
      (e.tableau g hf).signalsOf e.machine e.round v := by
  rw [VertexProgram.signalsIn, revive_started hc, Tableau.signalsOf, ← context_eq hf hs]
  cases hv : e.accumulator.peek v.id with
  | none =>
    rw [show (e.tableau g hf).pending v.id = none from hv]
    rfl
  | some payload =>
    rw [show (e.tableau g hf).pending v.id = some payload from hv]
    rfl

theorem WellShaped.topology_size_applied (w : WellShaped e) (schedule : Schedule)
    (values : List D) :
    ((g.network hf).withValues values).topology.size =
      (e.applied (g.network hf) schedule).slots.size :=
  have hn := w.topology_size hf hs
  hn.trans (w.sameShape_applied hn schedule).size_slots.symm

/-- Every state that scatter finds can be loaded. -/
theorem Regular.exists_revive_applied (w : Regular e) (hc : e.Carries) (values : List D) :
    ∀ item ∈ (e.applied (g.network hf) schedule).occupants ((g.network hf).withValues values),
      ∃ state, e.program.revive e.prototype item.2 = .ok state := by
  rw [w.occupants_applied hf hs hc]
  intro item hi
  obtain ⟨v, _, rfl⟩ := List.mem_map.1 hi
  exact ⟨_, revive_started hc v⟩

/-- The engine behind the scatter phase, and the failure if there is one. -/
def roundEnd (e : Engine S D M G) (g : Graph D) (hf : g.finalized = true)
    (schedule : Schedule) : Engine S D M G × Option Failure :=
  (e.applied (g.network hf) schedule).scatterPhase
    ((g.network hf).withValues ((e.tableau g hf).values e.machine e.round)) schedule.scatter

/-- There is none if signals stay inside. -/
theorem Regular.roundEnd_eq_none (w : Regular e) (inside : e.program.StaysInside)
    (hc : e.Carries) (schedule : Schedule) : (e.roundEnd g hf schedule).2 = none := by
  have h := w.sameShape_applied (w.topology_size hf hs) schedule
  exact ((w.of_sameShape h).scatterPhase_eq (w.topology_size_applied hf hs _ _) inside
    (w.exists_revive_applied hf hs hc _) schedule.scatter).1

omit hs in
/-- What is pending behind scatter is what is pending in the tableau behind the round. -/
theorem Steady.peek_roundEnd (ready : Steady e g)
    (cap : e.round < e.options.maxRounds) (schedule : Schedule) (v : VertexId) :
    (e.roundEnd g ready.finalized schedule).1.accumulator.peek v =
      ((e.tableau g ready.finalized).round e.machine e.round).pending v := by
  obtain ⟨w, hf, hs, inside, hc, settling⟩ := ready
  have hn := w.topology_size hf hs
  have h := w.sameShape_applied hn schedule
  have hnone : (e.applied (g.network hf) schedule).accumulator.peek v = none := by
    rw [applied, w.applyPhase_gathered hn hc]
    exact w.peek_gatherPhase hn (g.topology_size_le hf) schedule.gather v
  have hsent : ((e.applied (g.network hf) schedule).occupants
      ((g.network hf).withValues ((e.tableau g hf).values e.machine e.round))).flatMap
        (e.program.signalsIn e.prototype (e.context (g.network hf))) =
      (e.tableau g hf).sent e.machine e.round := by
    rw [w.occupants_applied hf hs hc, List.flatMap_map]
    exact List.flatMap_congr fun v _ => signalsIn_started hf hs hc v
  have hscatter := (w.of_sameShape h).peek_scatterPhase (v := v)
    (w.topology_size_applied hf hs schedule ((e.tableau g hf).values e.machine e.round))
    inside (w.exists_revive_applied hf hs hc _) schedule.scatter
  rw [hnone, h.length_workers, h.program, h.prototype, context_applied, hsent] at hscatter
  exact hscatter (settling 0 v cap)

end Phases

/-! ### One step -/

@[simp]
theorem phase_completeRound :
    e.completeRound.phase = if e.options.maxRounds ≤ e.round + 1 then .done else .gather := rfl

@[simp]
theorem round_completeRound : e.completeRound.round = e.round + 1 := rfl

@[simp]
theorem options_completeRound : e.completeRound.options = e.options := rfl

@[simp]
theorem signals_completeRound : e.completeRound.signals = e.signals + e.numSent := rfl

@[simp]
theorem slots_completeRound : e.completeRound.slots = e.slots := rfl

@[simp]
theorem accumulator_completeRound : e.completeRound.accumulator = e.accumulator := rfl

/-- A round whose phases went through is counted, and the cap says whether another may follow. -/
theorem conclude_of_none {t : Engine S D M G × Option Failure} (h : t.2 = none) :
    conclude g t =
      { engine := t.1.completeRound
        graph := g
        events := [t.1.roundEvent]
        result := .ok (decide (t.1.round + 1 < t.1.options.maxRounds)) } := by
  obtain ⟨e, _ | failure⟩ := t
  · rw [conclude]
    congr 2
    by_cases hlast : e.options.maxRounds ≤ e.round + 1
    · rw [completeRound, if_pos hlast, decide_eq_false (Nat.not_lt.2 hlast)]
      rfl
    · rw [completeRound, if_neg hlast, decide_eq_true (Nat.not_le.1 hlast)]
      rfl
  · cases h

section Step

variable [Payload M] [Payload G] [Inhabited G]

theorem step_of_refusal {cause : Error} (h : e.refusal g = some cause) (schedule : Schedule) :
    e.step g schedule = { engine := e, graph := g, result := .error (.error cause) } := by
  unfold step
  split
  · rename_i hr
    rw [hr] at h
    cases h
    rfl
  · rename_i hr
    rw [hr] at h
    cases h

theorem step_eq_stepOn (hf : g.finalized = true) (hs : g.numVertices = e.accumulator.size)
    (schedule : Schedule) : e.step g schedule = e.stepOn g hf schedule := by
  unfold step
  split
  · rename_i hr
    rw [refusal_eq_none hf hs] at hr
    cases hr
  · rfl

theorem WellShaped.stepOn_eq_enterApply (w : WellShaped e) (hf : g.finalized = true)
    (cap : e.round < e.options.maxRounds) (schedule : Schedule) :
    e.stepOn g hf schedule =
      enterApply g hf schedule (e.gatherPhase (g.network hf) schedule.gather) := by
  rw [stepOn, if_neg (Nat.not_le.2 cap), if_pos w.tiled]

omit [Payload G] [Inhabited G] in
/-- A gather phase that starts nobody ends the run. -/
theorem enterApply_of_idle {hf : g.finalized = true} {schedule : Schedule}
    {t : Engine S D M G × Option Failure} (ok : t.2 = none) (idle : t.1.numActive = 0) :
    enterApply g hf schedule t =
      { engine := { t.1 with phase := .done }, graph := g, result := .ok false } := by
  obtain ⟨e, failure⟩ := t
  obtain rfl : failure = none := ok
  exact if_pos idle

omit [Payload G] [Inhabited G] in
/-- A gather phase that starts somebody is followed by the others. -/
theorem enterApply_of_busy {hf : g.finalized = true} {schedule : Schedule}
    {t : Engine S D M G × Option Failure} (ok : t.2 = none) (busy : t.1.numActive ≠ 0) :
    enterApply g hf schedule t =
      let applied := { t.1 with phase := .apply }.applyPhase (g.network hf) schedule.apply
      enterScatter (g.overwrite applied.2.1) hf schedule.scatter (applied.1, applied.2.2) := by
  obtain ⟨e, failure⟩ := t
  obtain rfl : failure = none := ok
  exact if_neg busy

theorem enterApply_of_active (hf : g.finalized = true) {schedule : Schedule}
    (ok : (e.gatherPhase (g.network hf) schedule.gather).2 = none)
    (active : (e.gatherPhase (g.network hf) schedule.gather).1.numActive ≠ 0) :
    enterApply g hf schedule (e.gatherPhase (g.network hf) schedule.gather) =
      let applied := (e.gathered (g.network hf) schedule.gather).applyPhase (g.network hf)
        schedule.apply
      enterScatter (g.overwrite applied.2.1) hf schedule.scatter (applied.1, applied.2.2) :=
  enterApply_of_busy ok active

/-- At the cap nothing is looked at. -/
theorem step_of_cap (hf : g.finalized = true) (hs : g.numVertices = e.accumulator.size)
    (cap : e.options.maxRounds ≤ e.round) (schedule : Schedule) :
    e.step g schedule =
      { engine := { e with phase := .done }, graph := g, result := .ok false } := by
  rw [step_eq_stepOn hf hs, stepOn, if_pos cap]

/-- A step that finds nothing pending ends the run and changes nothing. -/
theorem Regular.step_of_isQuiet (w : Regular e) (hf : g.finalized = true)
    (hs : g.numVertices = e.accumulator.size) (cap : e.round < e.options.maxRounds)
    (hq : (e.tableau g hf).IsQuiet) (schedule : Schedule) :
    (e.step g schedule).graph = g ∧ (e.step g schedule).engine.accumulator = e.accumulator ∧
      (e.step g schedule).engine.round = e.round ∧ (e.step g schedule).result = .ok false := by
  have hn := w.topology_size hf hs
  have hle := g.topology_size_le hf
  have hactive : (e.gatherPhase (g.network hf) schedule.gather).1.numActive = 0 :=
    (w.numActive_eq_zero_iff hn hle _).2 hq
  have hacc := w.accumulator_gatherPhase_of_quiet hn hle hq schedule.gather
  have hround : (e.gatherPhase (g.network hf) schedule.gather).1.round = e.round := rfl
  rw [step_eq_stepOn hf hs, w.stepOn_eq_enterApply hf cap,
    enterApply_of_idle (w.gatherPhase_snd hn hle _) hactive]
  exact ⟨rfl, hacc, hround, rfl⟩

/-- A step that finds something pending goes through its phases and is counted. -/
theorem Regular.step_of_active (w : Regular e) (hf : g.finalized = true)
    (hs : g.numVertices = e.accumulator.size) (inside : e.program.StaysInside) (hc : e.Carries)
    (cap : e.round < e.options.maxRounds) (ha : ¬ (e.tableau g hf).IsQuiet)
    (schedule : Schedule) :
    e.step g schedule =
      { engine := (e.roundEnd g hf schedule).1.completeRound
        graph := ((e.tableau g hf).round e.machine e.round).graph
        events := [(e.roundEnd g hf schedule).1.roundEvent]
        result := .ok (decide (e.round + 1 < e.options.maxRounds)) } := by
  have hn := w.topology_size hf hs
  have hle := g.topology_size_le hf
  have hactive : (e.gatherPhase (g.network hf) schedule.gather).1.numActive ≠ 0 := fun h =>
    ha ((w.numActive_eq_zero_iff hn hle _).1 h)
  have hfail : ((e.gathered (g.network hf) schedule.gather).applyPhase (g.network hf)
      schedule.apply).2.2 = none := by
    rw [w.applyPhase_gathered hn hc]
  rw [step_eq_stepOn hf hs, w.stepOn_eq_enterApply hf cap,
    enterApply_of_active hf (w.gatherPhase_snd hn hle _) hactive]
  simp only [hfail, w.values_applied hf hs hc]
  exact conclude_of_none (w.roundEnd_eq_none hf hs inside hc schedule)

/-- **A step that finds something pending makes one round.** -/
theorem Steady.step_of_active (ready : Steady e g) (cap : e.round < e.options.maxRounds)
    (ha : ¬ (e.tableau g ready.finalized).IsQuiet) (schedule : Schedule) :
    (e.step g schedule).graph = ((e.tableau g ready.finalized).round e.machine e.round).graph ∧
      (∀ v, (e.step g schedule).engine.accumulator.peek v =
        ((e.tableau g ready.finalized).round e.machine e.round).pending v) ∧
      (e.step g schedule).engine.round = e.round + 1 ∧
      (e.step g schedule).result = .ok (decide (e.round + 1 < e.options.maxRounds)) := by
  have hpeek := ready.peek_roundEnd cap schedule
  rw [ready.regular.step_of_active ready.finalized ready.size ready.inside ready.carries cap ha
    schedule]
  exact ⟨rfl, hpeek, rfl, rfl⟩

theorem Runnable.step_of_active (ready : Runnable e g) (cap : e.round < e.options.maxRounds)
    (ha : ¬ (e.tableau g ready.finalized).IsQuiet) (schedule : Schedule) :
    (e.step g schedule).graph = ((e.tableau g ready.finalized).round e.machine e.round).graph ∧
      (∀ v, (e.step g schedule).engine.accumulator.peek v =
        ((e.tableau g ready.finalized).round e.machine e.round).pending v) ∧
      (e.step g schedule).engine.round = e.round + 1 ∧
      (e.step g schedule).result = .ok (decide (e.round + 1 < e.options.maxRounds)) :=
  ready.steady.step_of_active cap ha schedule

/-- Behind a step that makes a round, engine and graph stand for the next tableau. -/
theorem Steady.tableau_step (ready : Steady e g) (cap : e.round < e.options.maxRounds)
    (ha : ¬ (e.tableau g ready.finalized).IsQuiet) (schedule : Schedule) :
    (e.step g schedule).graph.numVertices = g.numVertices ∧
      ∃ hf' : (e.step g schedule).graph.finalized = true,
        (e.step g schedule).engine.tableau (e.step g schedule).graph hf' =
          (e.tableau g ready.finalized).round e.machine e.round := by
  obtain ⟨hg, hp, -, -⟩ := ready.step_of_active cap ha schedule
  have hfinalized : (e.step g schedule).graph.finalized = true := by
    rw [hg]
    exact ready.finalized
  have hsize : (e.step g schedule).graph.numVertices = g.numVertices := by
    rw [hg, Tableau.graph_round, Graph.numVertices_overwrite]
    rfl
  have hpending : (e.step g schedule).engine.accumulator.peek =
      ((e.tableau g ready.finalized).round e.machine e.round).pending := funext hp
  refine ⟨hsize, hfinalized, ?_⟩
  simp only [tableau, hg, hpending]

/-- From there they can go on, if they could so far. -/
theorem Runnable.step (ready : Runnable e g) (cap : e.round < e.options.maxRounds)
    (ha : ¬ (e.tableau g ready.finalized).IsQuiet) (schedule : Schedule) :
    ∃ next : Runnable (e.step g schedule).engine (e.step g schedule).graph,
      (e.step g schedule).engine.tableau (e.step g schedule).graph next.finalized =
        (e.tableau g ready.finalized).round e.machine e.round := by
  obtain ⟨hsize, hf', htableau⟩ := ready.steady.tableau_step cap ha schedule
  exact ⟨ready.of_sameShape (ready.regular.sameShape_step g schedule) hf' hsize, htableau⟩

/-- If the rounds that were left settle, so do those that still are. -/
theorem Steady.step (ready : Steady e g) (cap : e.round < e.options.maxRounds)
    (ha : ¬ (e.tableau g ready.finalized).IsQuiet) (schedule : Schedule) :
    ∃ next : Steady (e.step g schedule).engine (e.step g schedule).graph,
      (e.step g schedule).engine.tableau (e.step g schedule).graph next.finalized =
        (e.tableau g ready.finalized).round e.machine e.round := by
  obtain ⟨hsize, hf', htableau⟩ := ready.tableau_step cap ha schedule
  obtain ⟨-, -, hround, -⟩ := ready.step_of_active cap ha schedule
  have hshape := ready.regular.sameShape_step g schedule
  refine ⟨⟨ready.regular.of_sameShape hshape, hf', ?_, hshape.program ▸ ready.inside,
    ready.carries.of_sameShape hshape, fun k v left => ?_⟩, htableau⟩
  · rw [hsize, ready.size, hshape.size_accumulator]
  · rw [hround, hshape.options, Nat.add_right_comm, Nat.add_assoc] at left
    rw [htableau, hshape.machine_eq, hshape.length_workers, hround, ← Tableau.rounds_succ,
      Nat.add_right_comm, Nat.add_assoc]
    exact ready.settling (k + 1) v left

end Step

/-! ### Whole runs -/

section Run

variable [Payload M] [Payload G] [Inhabited G] {schedules : Nat → Schedule}

/-- The step after which no other may follow is the last one of the run. -/
theorem runRounds_of_last (h : (e.step g (schedules e.round)).result = .ok false) :
    e.runRounds g schedules =
      { engine := (e.step g (schedules e.round)).engine
        graph := (e.step g (schedules e.round)).graph
        events := (e.step g (schedules e.round)).events
        result := .ok () } := by
  rw [runRounds]
  split <;> rename_i hs <;> rw [hs] at h <;> cases h
  rw [hs]

/-- After any other step the run goes on from there. -/
theorem runRounds_of_more (h : (e.step g (schedules e.round)).result = .ok true) :
    e.runRounds g schedules =
      { (e.step g (schedules e.round)).engine.runRounds (e.step g (schedules e.round)).graph
          schedules with
        events := (e.step g (schedules e.round)).events ++
          ((e.step g (schedules e.round)).engine.runRounds (e.step g (schedules e.round)).graph
            schedules).events } := by
  rw [runRounds]
  split <;> rename_i hs <;> rw [hs] at h <;> cases h
  rw [hs]

/-- **Induction on the rounds that are left.** What is to be shown of an engine and a graph may be
assumed of those that a run goes on with. -/
@[elab_as_elim]
theorem rounds_induction (schedules : Nat → Schedule)
    {motive : Engine S D M G → Graph D → Prop}
    (step : ∀ e g, ((e.step g (schedules e.round)).result = .ok true →
      motive (e.step g (schedules e.round)).engine (e.step g (schedules e.round)).graph) →
      motive e g)
    (e : Engine S D M G) (g : Graph D) : motive e g := by
  induction hk : e.options.maxRounds - e.round using Nat.strongRecOn generalizing e g with
  | ind k ih =>
    refine step e g fun more => ?_
    obtain ⟨hround, hoptions, hlt⟩ := round_lt_of_step more
    refine ih _ ?_ _ _ rfl
    rw [hoptions, hround]
    omega

/-- With one round left, a run is that round. Nobody looks at what it sends, so the order in which
its signals arrive does not matter. -/
theorem Regular.runRounds_of_one_left (w : Regular e) (hf : g.finalized = true)
    (hs : g.numVertices = e.accumulator.size) (inside : e.program.StaysInside) (hc : e.Carries)
    (left : e.options.maxRounds = e.round + 1) (schedules : Nat → Schedule) :
    (e.runRounds g schedules).result = .ok () ∧
      (e.runRounds g schedules).graph = ((e.tableau g hf).round e.machine e.round).graph := by
  have cap : e.round < e.options.maxRounds := by omega
  by_cases hq : (e.tableau g hf).IsQuiet
  · obtain ⟨hg, -, -, hr⟩ := w.step_of_isQuiet hf hs cap hq (schedules e.round)
    rw [runRounds_of_last hr, Tableau.round_of_isQuiet hq]
    exact ⟨rfl, hg⟩
  · have hstep := w.step_of_active hf hs inside hc cap hq (schedules e.round)
    rw [left, decide_eq_false (Nat.lt_irrefl _)] at hstep
    rw [runRounds_of_last (by rw [hstep]), hstep]
    exact ⟨rfl, rfl⟩

/-- What a run of an engine amounts to on a graph that fits it. -/
structure RunsTo (e : Engine S D M G) (g : Graph D) (schedules : Nat → Schedule)
    (last : Tableau D M) : Prop where
  result : (e.runRounds g schedules).result = .ok ()
  graph : (e.runRounds g schedules).graph = last.graph
  peek : ∀ v, (e.runRounds g schedules).engine.accumulator.peek v = last.pending v

theorem RunsTo.of_last {last : Tableau D M}
    (hr : (e.step g (schedules e.round)).result = .ok false)
    (hg : (e.step g (schedules e.round)).graph = last.graph)
    (hp : ∀ v, (e.step g (schedules e.round)).engine.accumulator.peek v = last.pending v) :
    RunsTo e g schedules last := by
  constructor <;> rw [runRounds_of_last hr]
  · exact hg
  · exact hp

theorem RunsTo.of_more {last : Tableau D M}
    (hr : (e.step g (schedules e.round)).result = .ok true)
    (h : RunsTo (e.step g (schedules e.round)).engine (e.step g (schedules e.round)).graph schedules
      last) : RunsTo e g schedules last := by
  constructor <;> rw [runRounds_of_more hr]
  · exact h.result
  · exact h.graph
  · exact h.peek

/-- **A run is as many rounds as the cap allows.** Quiet ones, which the engine does not make,
change nothing. -/
theorem Steady.run_eq_rounds (ready : Steady e g) (schedules : Nat → Schedule) :
    RunsTo e g schedules ((e.tableau g ready.finalized).rounds e.machine e.round
      (e.options.maxRounds - e.round)) := by
  -- by induction on the rounds that are left, for all engines and graphs that the run goes through
  induction hk : e.options.maxRounds - e.round generalizing e g with
  | zero =>
    have h := step_of_cap ready.finalized ready.size (Nat.le_of_sub_eq_zero hk)
      (schedules e.round)
    refine .of_last ?_ ?_ fun v => ?_
    · rw [h]
    · rw [h]
      rfl
    · rw [h]
      rfl
  | succ k ih =>
    have cap : e.round < e.options.maxRounds := by omega
    by_cases hq : (e.tableau g ready.finalized).IsQuiet
    · obtain ⟨hg, ha, -, hr⟩ := ready.regular.step_of_isQuiet ready.finalized ready.size cap hq
        (schedules e.round)
      rw [Tableau.rounds_of_isQuiet hq]
      refine .of_last hr hg fun v => ?_
      rw [ha]
      rfl
    · obtain ⟨hg, hp, hround, hr⟩ := ready.step_of_active cap hq (schedules e.round)
      rw [Tableau.rounds_succ]
      by_cases hlast : e.round + 1 < e.options.maxRounds
      · rw [decide_eq_true hlast] at hr
        obtain ⟨next, htableau⟩ := ready.step cap hq (schedules e.round)
        have hshape := ready.regular.sameShape_step g (schedules e.round)
        have hleft : (e.step g (schedules e.round)).engine.options.maxRounds -
            (e.step g (schedules e.round)).engine.round = k := by
          rw [hshape.options, hround]
          omega
        have hrun := ih next hleft
        rw [htableau, hshape.machine_eq, hround] at hrun
        exact .of_more hr hrun
      · rw [decide_eq_false hlast] at hr
        obtain rfl : k = 0 := by omega
        exact .of_last hr hg hp

theorem Runnable.run_eq_rounds (ready : Runnable e g) (schedules : Nat → Schedule) :
    RunsTo e g schedules ((e.tableau g ready.finalized).rounds e.machine e.round
      (e.options.maxRounds - e.round)) := ready.steady.run_eq_rounds schedules

end Run

/-! ### Reachable engines -/

section Reachable

variable [Payload M] [Inhabited M] [Payload G] [Inhabited G]

/-- The program with which every vertex adds what its in-links hold to its own value and tells its
out-links what it held before. -/
def tally : VertexProgram UInt64 UInt64 UInt64 UInt64 where
  init _ v _ _ := v.value
  gatherLinks _ _ _ := .inward
  gather _ _ link _ := link.source.value
  apply _ _ total state value := (state, value + total)
  scatterLinks _ _ _ := .outward
  scatter _ _ link state := [⟨link.target.id, state⟩]
  save state := .ok [state.toUInt8]
  load bytes prototype := .ok (bytes.head?.elim prototype UInt8.toUInt64)

theorem tally_staysInside : tally.StaysInside := by
  refine .of_asides rfl fun c v state signal h => ?_
  obtain ⟨link, hl, hs⟩ := List.mem_flatMap.1 h
  obtain ⟨⟨w, hw⟩, -, rfl⟩ := List.mem_map.1 hl
  obtain rfl := List.mem_singleton.1 hs
  exact Topology.targets_lt v.inRange w hw

/-- Two workers that keep states as bytes, and something pending everywhere. -/
def twoWorkers : Engine UInt64 UInt64 UInt64 UInt64 :=
  (ofProgram tally 0 2 ⟨3, 2, true⟩).signalAll

end Reachable

end Engine

end Superstep
