import Superstep.Proofs.Engine.Transform
import Superstep.Proofs.Engine.Twins

/-!
# Parked states

An engine may keep the states of its vertices between apply and scatter, or save them and load them
again. If what is loaded scatters as what was saved, then nothing but the slots can tell the two
apart, so the engines are twins, and they stay twins through any sequence of commands.

The states of which this is asked are those that reach the end of apply somewhere in the session.
Nothing else is asked of the program. It may send signals in every step, and where it breaks off or
sends a signal out of the graph, both engines fail with the same fault and go on from there.

What is compared are two engines under the same schedules. Under different ones they are still the
same if there is only one worker, or if the merge does not mind in which order signals arrive and
nothing is sent while payloads are taken. Otherwise an engine need not even be the same as itself.

## Main definitions

* `SameCourse`, `SameScript`: schedules, and sequences of commands, that come to the same
* `Engine.Alike`: outcomes that cannot be told apart from outside

## Main results

* `Engine.Twin.step`, `Engine.Twin.runRounds`, `Engine.Twin.transform`: twins have like outcomes
* `Engine.Twin.session_eq`: twins cannot be told apart by a sequence of commands
* `Engine.Reachable.session_withPersist`: parked states make no difference
-/

namespace Superstep

variable {S D M G : Type}

/-! ### Schedules -/

/-- Two schedules of a round that come to the same. -/
structure SameCourse [Payload M] (p : VertexProgram S D M G) (workers : Nat)
    (schedule schedule' : Schedule) : Prop where
  gather : p.SameTakes workers schedule.gather schedule'.gather
  apply : SameDeliveries M workers schedule.apply schedule'.apply
  scatter : SameDeliveries M workers schedule.scatter schedule'.scatter

/-- Two timings of a command that come to the same. -/
structure SameTiming [Payload M] (p : VertexProgram S D M G) (workers : Nat)
    (timing timing' : Timing) : Prop where
  transform : SameDeliveries M workers timing.transform timing'.transform
  rounds : ∀ i, SameCourse p workers (timing.rounds i) (timing'.rounds i)

/-- The same commands, under timings that come to the same. -/
def SameScript [Payload M] (p : VertexProgram S D M G) (workers : Nat) :
    List (Command D M × Timing) → List (Command D M × Timing) → Prop :=
  List.Forall₂ fun entry entry' => entry'.1 = entry.1 ∧ SameTiming p workers entry.2 entry'.2

section Course

variable [Payload M] {p : VertexProgram S D M G} {workers : Nat}

theorem SameDeliveries.refl (picks : List Nat) : SameDeliveries M workers picks picks :=
  .inl (.inr rfl)

theorem SameCourse.refl (schedule : Schedule) : SameCourse p workers schedule schedule :=
  ⟨.inl (.inr rfl), .refl _, .refl _⟩

theorem SameScript.refl (script : List (Command D M × Timing)) :
    SameScript p workers script script :=
  List.forall₂_same.2 fun _ _ => ⟨rfl, .refl _, fun _ => .refl _⟩

/-- All schedules come to the same: there is one worker, or nothing is sent while payloads are taken
and the merge does not mind the order of deliveries. -/
def VertexProgram.Indifferent (p : VertexProgram S D M G) (workers : Nat) : Prop :=
  workers ≤ 1 ∨ p.GathersSilently ∧ OrderFree (Payload.merge : M → M → M)

theorem VertexProgram.Indifferent.sameDeliveries (h : p.Indifferent workers)
    (picks picks' : List Nat) : SameDeliveries M workers picks picks' :=
  h.imp .inl And.right

end Course

namespace Engine

/-! ### Phases -/

/-- Outcomes that cannot be told apart from outside. -/
structure Alike {α : Type} (o o' : Outcome S D M G α) : Prop where
  engine : Twin o.engine o'.engine
  graph : o'.graph = o.graph
  events : o'.events = o.events
  result : o'.result = o.result

theorem Alike.map {α β : Type} {o o' : Outcome S D M G α} (h : Alike o o') (f : α → β) :
    Alike (o.map f) (o'.map f) :=
  ⟨h.engine, h.graph, h.events, congrArg (Except.map f) h.result⟩

theorem SameScatter.conclude {t t' : Engine S D M G × Option Failure} (h : SameScatter t t')
    (g : Graph D) : Alike (conclude g t) (conclude g t') := by
  obtain ⟨e, failure⟩ := t
  obtain ⟨e', failure'⟩ := t'
  obtain rfl : failure' = failure := h.failure
  have twin := h.twin
  cases failure' with
  | some failure => exact ⟨twin, rfl, rfl, rfl⟩
  | none =>
    have hround : e'.round = e.round := twin.round
    have hsent : e'.numSent = e.numSent := h.numSent
    have hactive : e'.numActive = e.numActive := h.numActive
    have hcompleted : e'.completeRound =
        { e' with
          phase := e.completeRound.phase
          round := e.completeRound.round
          signals := e.completeRound.signals } := by
      simp only [completeRound, hround, hsent, show e'.signals = e.signals from twin.signals,
        show e'.options.maxRounds = e.options.maxRounds from twin.maxRounds]
    rw [Engine.conclude, Engine.conclude, hcompleted]
    refine ⟨twin.noted _ _ _, rfl, ?_, rfl⟩
    rw [roundEvent, roundEvent, hround, hactive, hsent, h.numActivated rfl]

section Phases

variable [Payload M] {g : Graph D}

/-- What follows apply, for twins whose slots say the same. -/
theorem SameApply.enterScatter {t t' : Engine S D M G × List D × Option Failure}
    (h : SameApply t t') (hf : g.finalized = true)
    (hn : (g.network hf).topology.size = t.1.slots.size) {picks picks' : List Nat}
    (order : SameDeliveries M t.1.options.workers picks picks') :
    Alike (enterScatter g hf picks (t.1, t.2.2)) (enterScatter g hf picks' (t'.1, t'.2.2)) := by
  obtain ⟨e, values, failure⟩ := t
  obtain ⟨e', values', failure'⟩ := t'
  obtain ⟨twin, workers, voices, -, hfailure⟩ := h
  obtain rfl : failure' = failure := hfailure
  cases failure' with
  | some failure => exact ⟨twin, rfl, rfl, rfl⟩
  | none =>
    refine SameScatter.conclude ((twin.withPhase .scatter).scatterPhase workers hn
      (g.topology_size_le hf) ?_ order) g
    exact VertexProgram.map_outgoing_of_voice voices _ _

/-- What follows gather, for twins that settled the same. -/
theorem SameGather.enterApply {t t' : Engine S D M G × Option Failure} (h : SameGather t t')
    (hf : g.finalized = true) (hn : (g.network hf).topology.size = t.1.slots.size)
    {schedule schedule' : Schedule}
    (apply : SameDeliveries M t.1.options.workers schedule.apply schedule'.apply)
    (scatter : SameDeliveries M t.1.options.workers schedule.scatter schedule'.scatter)
    (kept : t.2 = none → KeepsVoices t.1 t'.1 (g.network hf)) :
    Alike (enterApply g hf schedule t) (enterApply g hf schedule' t') := by
  obtain ⟨e, failure⟩ := t
  obtain ⟨e', failure'⟩ := t'
  obtain ⟨twin, workers, hfailure, slots⟩ := h
  obtain rfl : failure' = failure := hfailure
  cases failure' with
  | some failure => exact ⟨twin.withPhase .gather, rfl, rfl, rfl⟩
  | none =>
    have hactive : e'.numActive = e.numActive := by
      rw [numActive, numActive]
      exact congrArg (fun workers : List Worker => (workers.map Worker.active).foldr (· + ·) 0)
        workers
    by_cases hidle : e.numActive = 0
    · rw [enterApply_of_idle rfl hidle, enterApply_of_idle rfl (hactive.trans hidle)]
      exact ⟨twin.withPhase .done, rfl, rfl, rfl⟩
    · have happly := (twin.withPhase .apply).applyPhase workers (slots rfl) hn
        (g.topology_size_le hf) (kept rfl) apply
      rw [enterApply_of_busy rfl hidle, enterApply_of_busy rfl (by rwa [hactive])]
      simp only [happly.values]
      have hshape := sameShape_applyPhase { e with phase := .apply } (g.network hf) schedule.apply
      exact happly.enterScatter (g := g.overwrite _) hf (hn.trans hshape.size_slots.symm) scatter

end Phases

/-! ### Steps -/

section Step

variable [Payload M] [Payload G] [Inhabited G] {e e' : Engine S D M G} {g : Graph D}

/-- **Twins make the same step.** -/
theorem Twin.step (t : Twin e e') {schedule schedule' : Schedule}
    (course : SameCourse e.program e.options.workers schedule schedule')
    (kept : e'.options.persist = e.options.persist ∨
      ∀ state, e.EndsApply g schedule state → e.program.Restores e.prototype state) :
    Alike (e.step g schedule) (e'.step g schedule') := by
  cases hr : e.refusal g with
  | some cause =>
    rw [step_of_refusal hr, step_of_refusal (t.refusal_eq g ▸ hr)]
    exact ⟨t, rfl, rfl, rfl⟩
  | none =>
    obtain ⟨hf, hs⟩ := fits_of_refusal hr
    have hs' : g.numVertices = e'.accumulator.size := by rw [t.accumulator, hs]
    have hn := t.wellShaped.topology_size hf hs
    have hle := g.topology_size_le hf
    rw [step_eq_stepOn hf hs, step_eq_stepOn hf hs']
    by_cases cap : e.round < e.options.maxRounds
    · have cap' : e'.round < e'.options.maxRounds := by rwa [t.round, t.maxRounds]
      have hshape := t.wellShaped.sameShape_gatherPhase hn schedule.gather
      rw [t.wellShaped.stepOn_eq_enterApply hf cap, t.wellShaped'.stepOn_eq_enterApply hf cap']
      refine (t.gatherPhase hn hle course.gather).enterApply hf (hn.trans hshape.size_slots.symm)
        course.apply course.scatter fun ok => ?_
      refine kept.imp_right fun restores share hshare state hstate => ?_
      have hcontext : (e.gatherPhase (g.network hf) schedule.gather).1.context (g.network hf) =
        e.context (g.network hf) := context_gathered
      exact restores state ⟨hf, hs, cap, ok, share, hshare, hcontext ▸ hstate⟩
    · have cap' : e'.options.maxRounds ≤ e'.round := by
        rw [t.round, t.maxRounds]
        exact Nat.le_of_not_lt cap
      rw [stepOn, stepOn, if_pos (Nat.le_of_not_lt cap), if_pos cap']
      exact ⟨t.withPhase .done, rfl, rfl, rfl⟩

end Step

/-! ### Runs, transformations and sessions -/

section Sessions

variable [Payload M] [Payload G] [Inhabited G] {e e' : Engine S D M G} {g : Graph D}

/-- **Twins make the same run.** -/
theorem Twin.runRounds (t : Twin e e') {schedules schedules' : Nat → Schedule}
    (course : ∀ i, SameCourse e.program e.options.workers (schedules i) (schedules' i))
    (kept : e'.options.persist = e.options.persist ∨
      ∀ e₁ g₁ state, StepsFrom schedules e g e₁ g₁ → e₁.EndsApply g₁ (schedules e₁.round) state →
        e₁.program.Restores e₁.prototype state) :
    Alike (e.runRounds g schedules) (e'.runRounds g schedules') := by
  -- for all pairs that the runs go through
  induction e, g using rounds_induction (M := M) (G := G) schedules generalizing e' with
  | step e g ih =>
    have h : Alike (e.step g (schedules e.round)) (e'.step g (schedules' e'.round)) := by
      rw [t.round]
      exact t.step (course e.round)
        (kept.imp_right fun restores state => restores e g state (.first e g))
    cases hr : (e.step g (schedules e.round)).result with
    | error failure =>
      have hr' := h.result.trans hr
      rw [runRounds_of_error hr, runRounds_of_error hr']
      exact ⟨h.engine, h.graph, h.events, rfl⟩
    | ok more =>
      have hr' := h.result.trans hr
      cases more with
      | false =>
        rw [runRounds_of_last hr, runRounds_of_last hr']
        exact ⟨h.engine, h.graph, h.events, rfl⟩
      | true =>
        have hshape := t.wellShaped.sameShape_step g (schedules e.round)
        have hshape' := t.wellShaped'.sameShape_step g (schedules' e'.round)
        have hrest := ih hr h.engine (by rwa [hshape.program, hshape.options])
          (kept.imp (by rw [hshape.options, hshape'.options]; exact id)
            fun restores e₁ g₁ state hsteps => restores e₁ g₁ state (.later hr hsteps))
        rw [runRounds_of_more hr, runRounds_of_more hr', h.graph, h.events]
        exact ⟨hrest.engine, hrest.graph, congrArg (_ ++ ·) hrest.events, hrest.result⟩

theorem Twin.run (t : Twin e e') {schedules schedules' : Nat → Schedule}
    (course : ∀ i, SameCourse e.program e.options.workers (schedules i) (schedules' i))
    (kept : e'.options.persist = e.options.persist ∨
      ∀ e₁ g₁ state, StepsFrom schedules e g e₁ g₁ → e₁.EndsApply g₁ (schedules e₁.round) state →
        e₁.program.Restores e₁.prototype state) :
    Alike (e.run g schedules) (e'.run g schedules') := by
  have h := t.runRounds course kept
  refine ⟨h.engine, h.graph, h.events, ?_⟩
  rw [Engine.run, Engine.run]
  simp only [h.result, h.engine.round, h.engine.signals, t.round, t.signals]

omit [Payload G] [Inhabited G]

theorem transform_of_refusal {cause : Error} (h : e.refusal g = some cause)
    (transformation : Transformation D M) (picks : List Nat) :
    e.transform g transformation picks =
      { engine := e, graph := g, result := .error (.error cause) } := by
  unfold transform
  split
  · rename_i hr
    rw [hr] at h
    cases h
    rfl
  · rename_i hr
    rw [hr] at h
    cases h

omit [Payload M] in
/-- Twins whose workers have no figures yet. -/
theorem Twin.cleared (t : Twin e e') :
    Twin { e with workers := e.workers.map Worker.reset }
      { e' with workers := e'.workers.map Worker.reset } where
  wellShaped := ⟨t.wellShaped.size_slots, t.wellShaped.tiled, by
    rw [List.map_map]
    exact t.wellShaped.ranges⟩
  program := t.program
  prototype := t.prototype
  maxRounds := t.maxRounds
  numWorkers := t.numWorkers
  size_slots := t.size_slots
  workers := by
    show (e'.workers.map Worker.reset).map Worker.reset =
      (e.workers.map Worker.reset).map Worker.reset
    rw [t.workers]
  accumulator := t.accumulator
  phase := t.phase
  round := t.round
  signals := t.signals

/-- What is to be delivered in a transformation. What failing workers sent is not counted. -/
def transformedLanes (e : Engine S D M G) (n : Network D) (transformation : Transformation D M) :
    List (List (Signal M) × Bool) :=
  (e.transformedBy n transformation).map fun t => (t.signals, t.failure.isNone)

omit [Payload M] in
theorem target_lt_of_mem_transformedLanes {n : Network D} {transformation : Transformation D M}
    {lane : List (Signal M) × Bool} (h : lane ∈ e.transformedLanes n transformation) :
    ∀ signal ∈ lane.1, signal.target.toNat < e.accumulator.size := by
  rw [transformedLanes, transformedBy, List.map_map] at h
  obtain ⟨share, -, rfl⟩ := List.mem_map.1 h
  exact fun signal hs => target_lt_of_mem_transformAll hs

/-- **Twins make the same transformation.** -/
theorem Twin.transform (t : Twin e e') (transformation : Transformation D M)
    {picks picks' : List Nat} (order : SameDeliveries M e.options.workers picks picks') :
    Alike (e.transform g transformation picks) (e'.transform g transformation picks') := by
  cases hr : e.refusal g with
  | some cause =>
    have hr' := t.refusal_eq g ▸ hr
    rw [transform_of_refusal hr, transform_of_refusal hr']
    exact ⟨t, rfl, rfl, rfl⟩
  | none =>
    obtain ⟨hf, hs⟩ := fits_of_refusal hr
    have hs' : g.numVertices = e'.accumulator.size := by rw [t.accumulator, hs]
    have htransformed : e'.transformedBy (g.network hf) transformation =
        e.transformedBy (g.network hf) transformation := by
      rw [transformedBy, transformedBy, t.context_eq, t.map_share_snd]
    have hlength : (e.transformedLanes (g.network hf) transformation).length =
        e.workers.length := by
      rw [transformedLanes, transformedBy, List.length_map, List.length_map,
        t.wellShaped.length_share (t.wellShaped.length_vertices hf hs)]
    have hdelivery := t.cleared.deliverLanes t.workers (hs ▸ g.size_le)
      (fun lane => target_lt_of_mem_transformedLanes (e := e))
      (hlength.symm ▸ t.wellShaped.sameDeliveries order)
    rw [transform_eq_transformOn t.wellShaped hf hs, transform_eq_transformOn t.wellShaped' hf hs',
      transformOn, transformOn, htransformed]
    split
    · exact ⟨hdelivery.twin, rfl, rfl, rfl⟩
    · exact ⟨hdelivery.counted, rfl, rfl, congrArg Except.ok hdelivery.numSent⟩

omit [Payload M] in
/-- Twins in which the same is pending now. -/
theorem Twin.withAccumulator (t : Twin e e') {a : Accumulator M}
    (hsize : a.size = e.accumulator.size) :
    Twin { e with accumulator := a } { e' with accumulator := a } where
  wellShaped := ⟨t.wellShaped.size_slots.trans hsize.symm, t.wellShaped.tiled,
    t.wellShaped.ranges⟩
  program := t.program
  prototype := t.prototype
  maxRounds := t.maxRounds
  numWorkers := t.numWorkers
  size_slots := t.size_slots
  workers := t.workers
  accumulator := rfl
  phase := t.phase
  round := t.round
  signals := t.signals

end Sessions

section Execute

variable [Payload M] [Inhabited M] [Payload G] [Inhabited G] {e e' : Engine S D M G} {g : Graph D}

omit [Payload G] [Inhabited G] in
theorem Twin.signalAll (t : Twin e e') : Twin e.signalAll e'.signalAll := by
  have hshape := sameShape_signalAll e
  have h := t.withAccumulator hshape.size_accumulator
  rw [Engine.signalAll, Engine.signalAll, t.accumulator]
  exact h

/-- **Twins carry a command out alike.** -/
theorem Twin.execute (t : Twin e e') {command : Command D M} {timing timing' : Timing}
    (same : SameTiming e.program e.options.workers timing timing')
    (kept : e'.options.persist = e.options.persist ∨
      ∀ e₁ g₁ schedule state, StepsIn [(command, timing)] e g e₁ g₁ schedule →
        e₁.EndsApply g₁ schedule state → e₁.program.Restores e₁.prototype state) :
    Alike (e.execute g timing command) (e'.execute g timing' command) := by
  cases command with
  | signal vertex payload =>
    rw [Engine.execute, Engine.execute, Engine.signal, Engine.signal, t.accumulator]
    cases h : e.accumulator.add vertex payload with
    | error fault => exact ⟨t, rfl, rfl, rfl⟩
    | ok answer =>
      obtain ⟨wasEmpty, a⟩ := answer
      have hsignal : e.signal vertex payload = .ok { e with accumulator := a } := by
        rw [Engine.signal, h]
        rfl
      exact ⟨t.withAccumulator (sameShape_signal hsignal).size_accumulator, rfl, rfl, rfl⟩
  | signalAll => exact ⟨t.signalAll, rfl, rfl, rfl⟩
  | transform transformation =>
    exact (t.transform transformation same.transform).map Reply.transformed
  | step =>
    rw [Engine.execute, Engine.execute, t.round]
    exact (t.step (same.rounds e.round)
      (kept.imp_right fun restores state => restores e g _ state .step)).map Reply.stepped
  | start =>
    exact (t.run same.rounds (kept.imp_right fun restores e₁ g₁ state hsteps =>
      restores e₁ g₁ _ state (.start hsteps))).map Reply.ran

omit [Inhabited M] in
theorem WellShaped.sameShape_runRounds (w : WellShaped e) (g : Graph D)
    (schedules : Nat → Schedule) : SameShape e (e.runRounds g schedules).engine := by
  induction e, g using rounds_induction (M := M) (G := G) schedules with
  | step e g ih =>
    have hstep := w.sameShape_step g (schedules e.round)
    cases hr : (e.step g (schedules e.round)).result with
    | error failure =>
      rw [runRounds_of_error hr]
      exact hstep
    | ok more =>
      cases more with
      | false =>
        rw [runRounds_of_last hr]
        exact hstep
      | true =>
        rw [runRounds_of_more hr]
        exact hstep.trans (ih hr (w.of_sameShape hstep))

theorem WellShaped.sameShape_execute (w : WellShaped e) (g : Graph D) (timing : Timing)
    (command : Command D M) : SameShape e (e.execute g timing command).engine := by
  cases command with
  | signal vertex payload =>
    rw [Engine.execute]
    cases h : e.signal vertex payload with
    | error fault => exact .refl e
    | ok signalled => exact sameShape_signal h
  | signalAll => exact sameShape_signalAll e
  | transform transformation => exact sameShape_transform e g transformation timing.transform
  | step => exact w.sameShape_step g (timing.rounds e.round)
  | start => exact w.sameShape_runRounds g timing.rounds

omit [Payload M] [Inhabited M] [Payload G] [Inhabited G] in
theorem Alike.sight_eq {o o' : Outcome S D M G Reply} (h : Alike o o') : o'.sight = o.sight := by
  rw [Outcome.sight, Outcome.sight, h.result, h.events, h.graph, h.engine.accumulator,
    h.engine.phase, h.engine.round, h.engine.signals]

theorem StepsIn.append {script rest : List (Command D M × Timing)} {e₁ : Engine S D M G}
    {g₁ : Graph D} {schedule : Schedule} (h : StepsIn script e g e₁ g₁ schedule) :
    StepsIn (script ++ rest) e g e₁ g₁ schedule := by
  induction h with
  | step => exact .step
  | start run => exact .start run
  | later _ ih => exact .later ih

/-- **Twins cannot be told apart from outside**, whatever they are asked for. -/
theorem Twin.session_eq (t : Twin e e') {script script' : List (Command D M × Timing)}
    (same : SameScript e.program e.options.workers script script')
    (kept : e'.options.persist = e.options.persist ∨
      ∀ e₁ g₁ schedule state, StepsIn script e g e₁ g₁ schedule →
        e₁.EndsApply g₁ schedule state → e₁.program.Restores e₁.prototype state) :
    e'.session g script' = e.session g script := by
  induction script generalizing e e' g script' with
  | nil =>
    cases same
    rfl
  | cons entry script ih =>
    cases same with
    | @cons _ entry' _ script' hentry hrest =>
      obtain ⟨command, timing⟩ := entry
      obtain ⟨command', timing'⟩ := entry'
      obtain ⟨rfl, htiming⟩ := hentry
      have h : Alike (e.execute g timing command') (e'.execute g timing' command') :=
        t.execute htiming (kept.imp_right fun restores e₁ g₁ schedule state hsteps =>
          restores e₁ g₁ schedule state hsteps.append)
      have hshape := t.wellShaped.sameShape_execute g timing command'
      have hshape' := t.wellShaped'.sameShape_execute g timing' command'
      rw [session, session, h.sight_eq, h.graph]
      refine congrArg _ (ih h.engine (by rwa [hshape.program, hshape.options]) ?_)
      refine kept.imp (by rw [hshape.options, hshape'.options]; exact id) ?_
      exact fun restores e₁ g₁ schedule state hsteps =>
        restores e₁ g₁ schedule state (.later hsteps)

end Execute

end Engine

end Superstep
