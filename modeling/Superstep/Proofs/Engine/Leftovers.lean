import Superstep.Proofs.Engine.Parking

/-!
# What a failed round leaves behind

A round may fail halfway. Then some slots are live and some parked, some workers have reported and
some have not, and the phase is where it got to. None of it reaches a later round: a gather phase
that goes through has set every slot and every figure anew, after one that fails no slot is looked
at, and no operation looks at the phase.

Two engines are peers if they agree on everything else. Peers have the same outcomes, and stay
peers, whatever is asked of them and however it ends. The signals that were counted so far may
differ as well, since they are only ever added to. Between two peers there is a third engine, with
the slots of the one and the count of the other, and that is how they are compared: it is a twin of
the first, and no operation depends on the count.

As a new engine is a peer of every engine with the same program, the same payloads pending and the
same round, an engine after a failure is as good as new.

## Main definitions

* `Engine.Peers`: engines that differ in leftovers only
* `Engine.SameOutcome`: what peers have in common after an operation

## Main results

* `Engine.WellShaped.step_recounted`, `Engine.WellShaped.transform_recounted`: the count does not
  matter
* `Engine.Peers.step`, `Engine.Peers.run`, `Engine.Peers.transform`: outcomes of peers
* `Engine.Reachable.leftovers_ignored`: failures have no influence on what comes later
-/

namespace Superstep

variable {S D M G : Type}

/-! ### Counts of signals -/

/-- The outcome with another count of signals. -/
def Outcome.recounted {α : Type} (o : Outcome S D M G α) (signals : Nat) : Outcome S D M G α :=
  { o with engine := { o.engine with signals := signals } }

namespace Engine

/-- The engine in another phase and with another count of signals. -/
def recounted (e : Engine S D M G) (phase : Phase) (signals : Nat) : Engine S D M G :=
  { e with phase := phase, signals := signals }

section Recount

variable [Payload M] {g : Graph D} (e : Engine S D M G) (signals : Nat)

omit [Payload M] in
theorem conclude_recounted (failure : Option Failure) :
    ∃ sent, (conclude g (e, failure)).engine.signals = e.signals + sent ∧
      conclude g ({ e with signals := signals }, failure) =
        (conclude g (e, failure)).recounted (signals + sent) := by
  cases failure with
  | some failure => exact ⟨0, rfl, rfl⟩
  | none => exact ⟨e.numSent, rfl, rfl⟩

theorem enterScatter_recounted (hf : g.finalized = true) (picks : List Nat)
    (failure : Option Failure) :
    ∃ sent, (enterScatter g hf picks (e, failure)).engine.signals = e.signals + sent ∧
      enterScatter g hf picks ({ e with signals := signals }, failure) =
        (enterScatter g hf picks (e, failure)).recounted (signals + sent) := by
  cases failure with
  | some failure => exact ⟨0, rfl, rfl⟩
  | none =>
    exact conclude_recounted ({ e with phase := .scatter }.scatterPhase (g.network hf) picks).1
      signals _

/-- What follows gather depends neither on the phase nor on what was counted before. -/
theorem enterApply_recounted (hf : g.finalized = true) (schedule : Schedule) (phase : Phase)
    (failure : Option Failure) :
    ∃ sent, (enterApply g hf schedule (e, failure)).engine.signals = e.signals + sent ∧
      enterApply g hf schedule (e.recounted phase signals, failure) =
        (enterApply g hf schedule (e, failure)).recounted (signals + sent) := by
  cases failure with
  | some failure => exact ⟨0, rfl, rfl⟩
  | none =>
    by_cases hidle : e.numActive = 0
    · have hidle' : (e.recounted phase signals).numActive = 0 := hidle
      rw [enterApply_of_idle rfl hidle, enterApply_of_idle rfl hidle']
      exact ⟨0, rfl, rfl⟩
    · have hbusy' : (e.recounted phase signals).numActive ≠ 0 := hidle
      rw [enterApply_of_busy rfl hidle, enterApply_of_busy rfl hbusy']
      exact enterScatter_recounted (g := g.overwrite _)
        ({ e with phase := .apply }.applyPhase (g.network hf) schedule.apply).1 signals hf _ _

end Recount

/-! ### Peers -/

/-- Two engines that agree on everything a round looks at. What their slots hold, the phase, the
figures of their workers and the count of signals may differ. -/
structure Peers (e e' : Engine S D M G) : Prop where
  program : e'.program = e.program
  prototype : e'.prototype = e.prototype
  options : e'.options = e.options
  accumulator : e'.accumulator = e.accumulator
  workers : e'.workers.map Worker.reset = e.workers.map Worker.reset
  size_slots : e'.slots.size = e.slots.size
  round : e'.round = e.round

theorem Peers.trans {e e' e'' : Engine S D M G} (t : Peers e e') (t' : Peers e' e'') :
    Peers e e'' :=
  ⟨t'.program.trans t.program, t'.prototype.trans t.prototype, t'.options.trans t.options,
    t'.accumulator.trans t.accumulator, t'.workers.trans t.workers,
    t'.size_slots.trans t.size_slots, t'.round.trans t.round⟩

/-- Twins are peers, if they agree on whether states are saved. -/
theorem Twin.peers {e e' : Engine S D M G} (t : Twin e e')
    (persist : e'.options.persist = e.options.persist) : Peers e e' where
  program := t.program
  prototype := t.prototype
  options := (EngineOptions.mk.injEq ..).mpr ⟨t.maxRounds, t.numWorkers, persist⟩
  accumulator := t.accumulator
  workers := t.workers
  size_slots := t.size_slots
  round := t.round

/-- What peers have in common after an operation: the result, what was told, the graph, all that a
later operation looks at, and how many signals were added to their counts. -/
structure SameOutcome {α : Type} (e e' : Engine S D M G) (o o' : Outcome S D M G α) : Prop where
  engine : Peers o.engine o'.engine
  graph : o'.graph = o.graph
  events : o'.events = o.events
  result : o'.result = o.result
  sent : ∃ sent, o.engine.signals = e.signals + sent ∧ o'.engine.signals = e'.signals + sent

namespace SameOutcome

variable {α β : Type} {e e' : Engine S D M G} {o o' : Outcome S D M G α}

theorem of_recounted (e e' : Engine S D M G)
    (h : ∃ sent, o.engine.signals = e.signals + sent ∧ o' = o.recounted (e'.signals + sent)) :
    SameOutcome e e' o o' := by
  obtain ⟨sent, hsent, rfl⟩ := h
  exact ⟨⟨rfl, rfl, rfl, rfl, rfl, rfl, rfl⟩, rfl, rfl, rfl, sent, hsent, rfl⟩

theorem trans {e'' : Engine S D M G} {o'' : Outcome S D M G α} (h : SameOutcome e e' o o')
    (h' : SameOutcome e' e'' o' o'') : SameOutcome e e'' o o'' where
  engine := h.engine.trans h'.engine
  graph := h'.graph.trans h.graph
  events := h'.events.trans h.events
  result := h'.result.trans h.result
  sent := by
    obtain ⟨sent, hsent, hsent'⟩ := h.sent
    obtain ⟨more, hmore, hmore'⟩ := h'.sent
    obtain rfl : sent = more := Nat.add_left_cancel (hsent'.symm.trans hmore)
    exact ⟨sent, hsent, hmore'⟩

theorem map (h : SameOutcome e e' o o') (f : α → β) : SameOutcome e e' (o.map f) (o'.map f) :=
  ⟨h.engine, h.graph, h.events, congrArg (Except.map f) h.result, h.sent⟩

end SameOutcome

/-! ### Operations recounted -/

section Recounted

variable [Payload M] {e : Engine S D M G} {g : Graph D}

/-- What follows once every worker has transformed its share. -/
def concludeTransform (cleared : Engine S D M G) (g : Graph D) (picks : List Nat)
    (transformed : List (Transformed D M)) : Outcome S D M G Nat :=
  let delivered := cleared.deliverLanes picks
    (transformed.map fun t => (t.signals, t.failure.isNone))
  let g := g.overwrite (transformed.flatMap Transformed.values)
  match firstFailure (transformed.map fun t => t.failure.map .fault) with
  | some failure => { engine := delivered, graph := g, result := .error failure }
  | none =>
    { engine := { delivered with signals := delivered.signals + delivered.numSent }
      graph := g
      result := .ok delivered.numSent }

theorem concludeTransform_recounted (e : Engine S D M G) (phase : Phase) (signals : Nat)
    (g : Graph D) (picks : List Nat) (transformed : List (Transformed D M)) :
    SameOutcome e (e.recounted phase signals) (concludeTransform e g picks transformed)
      (concludeTransform (e.recounted phase signals) g picks transformed) := by
  rw [concludeTransform, concludeTransform]
  generalize firstFailure (transformed.map fun t => t.failure.map .fault) = failure
  cases failure with
  | some failure => exact ⟨⟨rfl, rfl, rfl, rfl, rfl, rfl, rfl⟩, rfl, rfl, rfl, 0, rfl, rfl⟩
  | none => exact ⟨⟨rfl, rfl, rfl, rfl, rfl, rfl, rfl⟩, rfl, rfl, rfl, _, rfl, rfl⟩

theorem WellShaped.transform_recounted (w : WellShaped e) (g : Graph D)
    (transformation : Transformation D M) (picks : List Nat) (phase : Phase) (signals : Nat) :
    SameOutcome e (e.recounted phase signals) (e.transform g transformation picks)
      ((e.recounted phase signals).transform g transformation picks) := by
  have w' : WellShaped (e.recounted phase signals) :=
    w.of_sameShape ⟨rfl, rfl, rfl, rfl, rfl, rfl⟩
  cases hr : e.refusal g with
  | some cause =>
    have hr' : (e.recounted phase signals).refusal g = some cause := hr
    rw [transform_of_refusal hr, transform_of_refusal hr']
    exact ⟨⟨rfl, rfl, rfl, rfl, rfl, rfl, rfl⟩, rfl, rfl, rfl, 0, rfl, rfl⟩
  | none =>
    obtain ⟨hf, hs⟩ := fits_of_refusal hr
    have hs' : g.numVertices = (e.recounted phase signals).accumulator.size := hs
    rw [transform_eq_transformOn w hf hs, transform_eq_transformOn w' hf hs']
    obtain ⟨hengine, hgraph, hevents, hresult, hsent⟩ := concludeTransform_recounted
      { e with workers := e.workers.map Worker.reset } phase signals g picks
      (e.transformedBy (g.network hf) transformation)
    exact ⟨hengine, hgraph, hevents, hresult, hsent⟩

theorem WellShaped.step_recounted [Payload G] [Inhabited G] (w : WellShaped e) (g : Graph D)
    (schedule : Schedule) (phase : Phase) (signals : Nat) :
    SameOutcome e (e.recounted phase signals) (e.step g schedule)
      ((e.recounted phase signals).step g schedule) := by
  have w' : WellShaped (e.recounted phase signals) :=
    w.of_sameShape ⟨rfl, rfl, rfl, rfl, rfl, rfl⟩
  cases hr : e.refusal g with
  | some cause =>
    have hr' : (e.recounted phase signals).refusal g = some cause := hr
    rw [step_of_refusal hr, step_of_refusal hr']
    exact ⟨⟨rfl, rfl, rfl, rfl, rfl, rfl, rfl⟩, rfl, rfl, rfl, 0, rfl, rfl⟩
  | none =>
    obtain ⟨hf, hs⟩ := fits_of_refusal hr
    have hs' : g.numVertices = (e.recounted phase signals).accumulator.size := hs
    by_cases cap : e.round < e.options.maxRounds
    · have cap' : (e.recounted phase signals).round <
          (e.recounted phase signals).options.maxRounds := cap
      rw [step_eq_stepOn hf hs, step_eq_stepOn hf hs', w.stepOn_eq_enterApply hf cap,
        w'.stepOn_eq_enterApply hf cap']
      exact .of_recounted e (e.recounted phase signals)
        (enterApply_recounted (e.gatherPhase (g.network hf) schedule.gather).1 signals hf schedule
          phase _)
    · have hle := Nat.le_of_not_lt cap
      have hle' : (e.recounted phase signals).options.maxRounds ≤
          (e.recounted phase signals).round := hle
      rw [step_of_cap hf hs hle, step_of_cap hf hs' hle']
      exact ⟨⟨rfl, rfl, rfl, rfl, rfl, rfl, rfl⟩, rfl, rfl, rfl, 0, rfl, rfl⟩

end Recounted

/-! ### Operations of peers -/

namespace Peers

variable {e e' : Engine S D M G}

/-- Peers are twins once phase and count are the same. -/
theorem twin (t : Peers e e') (w : WellShaped e) :
    Twin e (e'.recounted e.phase e.signals) where
  wellShaped := w
  program := t.program
  prototype := t.prototype
  maxRounds := congrArg EngineOptions.maxRounds t.options
  numWorkers := congrArg EngineOptions.workers t.options
  size_slots := t.size_slots
  workers := t.workers
  accumulator := t.accumulator
  phase := rfl
  round := t.round
  signals := rfl

/-- The outcomes of peers are compared by way of an engine between them: a twin of the one, and the
other one recounted. -/
theorem sameOutcome {α : Type} {o o' between : Outcome S D M G α} (alike : Alike o between)
    (persist : between.engine.options.persist = o.engine.options.persist)
    (recounted : SameOutcome (e'.recounted e.phase e.signals) e' between o') :
    SameOutcome e e' o o' := by
  obtain ⟨sent, hsent, -⟩ := recounted.sent
  have first : SameOutcome e (e'.recounted e.phase e.signals) o between :=
    { engine := alike.engine.peers persist
      graph := alike.graph
      events := alike.events
      result := alike.result
      sent := ⟨sent, alike.engine.signals ▸ hsent, hsent⟩ }
  exact first.trans recounted

section Operations

variable [Payload M] [Payload G] [Inhabited G] {g : Graph D}

/-- **Peers make the same step.** -/
theorem step (t : Peers e e') (w : WellShaped e) {schedule schedule' : Schedule}
    (course : SameCourse e.program e.options.workers schedule schedule') :
    SameOutcome e e' (e.step g schedule) (e'.step g schedule') := by
  have hpersist : e'.options.persist = e.options.persist := congrArg EngineOptions.persist t.options
  have w' := (t.twin w).wellShaped'
  refine sameOutcome ((t.twin w).step course (.inl hpersist)) ?_
    (w'.step_recounted g schedule' e'.phase e'.signals)
  rw [(w.sameShape_step g schedule).options, (w'.sameShape_step g schedule').options]
  exact hpersist

/-- **Peers make the same run.** -/
theorem runRounds (t : Peers e e') (w : WellShaped e) {schedules schedules' : Nat → Schedule}
    (course : ∀ i, SameCourse e.program e.options.workers (schedules i) (schedules' i)) :
    SameOutcome e e' (e.runRounds g schedules) (e'.runRounds g schedules') := by
  -- for all peers that the runs go through
  induction e, g using rounds_induction (M := M) (G := G) schedules generalizing e' with
  | step e g ih =>
    have h : SameOutcome e e' (e.step g (schedules e.round)) (e'.step g (schedules' e'.round)) := by
      rw [t.round]
      exact t.step w (course e.round)
    cases hr : (e.step g (schedules e.round)).result with
    | error failure =>
      rw [runRounds_of_error hr, runRounds_of_error (h.result.trans hr)]
      exact ⟨h.engine, h.graph, h.events, rfl, h.sent⟩
    | ok more =>
      cases more with
      | false =>
        rw [runRounds_of_last hr, runRounds_of_last (h.result.trans hr)]
        exact ⟨h.engine, h.graph, h.events, rfl, h.sent⟩
      | true =>
        have hshape := w.sameShape_step g (schedules e.round)
        have hrest := ih hr h.engine (w.of_sameShape hshape)
          (by rwa [hshape.program, hshape.options])
        obtain ⟨sent, hsent, hsent'⟩ := h.sent
        obtain ⟨more, hmore, hmore'⟩ := hrest.sent
        rw [runRounds_of_more hr, runRounds_of_more (h.result.trans hr), h.graph, h.events]
        refine ⟨hrest.engine, hrest.graph, congrArg (_ ++ ·) hrest.events, hrest.result,
          sent + more, ?_, ?_⟩
        · exact hmore.trans (by rw [hsent, Nat.add_assoc])
        · exact hmore'.trans (by rw [hsent', Nat.add_assoc])

theorem run (t : Peers e e') (w : WellShaped e) {schedules schedules' : Nat → Schedule}
    (course : ∀ i, SameCourse e.program e.options.workers (schedules i) (schedules' i)) :
    SameOutcome e e' (e.run g schedules) (e'.run g schedules') := by
  have h : SameOutcome e e' (e.runRounds g schedules) (e'.runRounds g schedules') :=
    t.runRounds w course
  obtain ⟨sent, hsent, hsent'⟩ := h.sent
  refine ⟨h.engine, h.graph, h.events, ?_, sent, hsent, hsent'⟩
  rw [Engine.run, Engine.run]
  simp only [h.result, h.engine.round, t.round, hsent, hsent', Nat.add_sub_cancel_left]

omit [Payload G] [Inhabited G] in
/-- **Peers make the same transformation.** -/
theorem transform (t : Peers e e') (w : WellShaped e) (transformation : Transformation D M)
    {picks picks' : List Nat} (order : SameDeliveries M e.options.workers picks picks') :
    SameOutcome e e' (e.transform g transformation picks)
      (e'.transform g transformation picks') := by
  have hpersist : e'.options.persist = e.options.persist := congrArg EngineOptions.persist t.options
  refine sameOutcome ((t.twin w).transform transformation order) ?_
    ((t.twin w).wellShaped'.transform_recounted g transformation picks' e'.phase e'.signals)
  rw [(sameShape_transform ..).options, (sameShape_transform ..).options]
  exact hpersist

end Operations

end Peers

/-! ### Sessions -/

/-- What a command answers, and what it leaves for others to see. The phase and the signals that
were counted before are not part of it. -/
structure Account (D M : Type) where
  result : Except Failure Reply
  events : List Event
  graph : Graph D
  pending : Accumulator M
  round : Nat

/-- A sight without the phase and the count. -/
def account (sight : Sight D M) : Account D M :=
  ⟨sight.result, sight.events, sight.graph, sight.pending, sight.round⟩

section Sessions

variable {e e' : Engine S D M G} {g : Graph D}

theorem SameOutcome.account_eq {o o' : Outcome S D M G Reply} (h : SameOutcome e e' o o') :
    account o'.sight = account o.sight := by
  rw [account, account, Outcome.sight, Outcome.sight, h.result, h.events, h.graph,
    h.engine.accumulator, h.engine.round]

/-- Peers in which the same is pending now. -/
theorem Peers.withAccumulator (t : Peers e e') (a : Accumulator M) :
    Peers { e with accumulator := a } { e' with accumulator := a } :=
  ⟨t.program, t.prototype, t.options, rfl, t.workers, t.size_slots, t.round⟩

variable [Payload M] [Inhabited M] [Payload G] [Inhabited G]

/-- **Peers carry a command out alike.** -/
theorem Peers.execute (t : Peers e e') (w : WellShaped e) (command : Command D M)
    {timing timing' : Timing} (same : SameTiming e.program e.options.workers timing timing') :
    SameOutcome e e' (e.execute g timing command) (e'.execute g timing' command) := by
  cases command with
  | signal vertex payload =>
    rw [Engine.execute, Engine.execute, Engine.signal, Engine.signal, t.accumulator]
    cases e.accumulator.add vertex payload with
    | error fault => exact ⟨t, rfl, rfl, rfl, 0, rfl, rfl⟩
    | ok answer => exact ⟨t.withAccumulator answer.2, rfl, rfl, rfl, 0, rfl, rfl⟩
  | signalAll =>
    rw [Engine.execute, Engine.execute, Engine.signalAll, Engine.signalAll, t.accumulator]
    exact ⟨t.withAccumulator _, rfl, rfl, rfl, 0, rfl, rfl⟩
  | transform transformation =>
    exact (t.transform w transformation same.transform).map Reply.transformed
  | step =>
    rw [Engine.execute, Engine.execute, t.round]
    exact (t.step w (same.rounds e.round)).map Reply.stepped
  | start => exact (t.run w same.rounds).map Reply.ran

/-- **Peers cannot be told apart by a sequence of commands.** -/
theorem Peers.session_eq (t : Peers e e') (w : WellShaped e)
    {script script' : List (Command D M × Timing)}
    (same : SameScript e.program e.options.workers script script') :
    (e'.session g script').map account = (e.session g script).map account := by
  generalize hprogram : e.program = program at same
  generalize hworkers : e.options.workers = workers at same
  induction same generalizing e e' g with
  | nil => rfl
  | @cons entry entry' script script' hentry _ ih =>
    obtain ⟨command, timing⟩ := entry
    obtain ⟨command', timing'⟩ := entry'
    obtain ⟨rfl, htiming⟩ := hentry
    subst hprogram hworkers
    have h := t.execute w (g := g) command' htiming
    have hshape := w.sameShape_execute g timing command'
    rw [session, session, List.map_cons, List.map_cons, h.account_eq, h.graph,
      ih h.engine (w.of_sameShape hshape) hshape.program
        (congrArg EngineOptions.workers hshape.options)]

/-! ### As good as new -/

/-- A round that is neither counted nor told of. -/
structure Uncounted {α : Type} (e : Engine S D M G) (o : Outcome S D M G α) : Prop where
  round : o.engine.round = e.round
  signals : o.engine.signals = e.signals
  events : o.events = []

omit [Payload M] [Inhabited M] [Payload G] [Inhabited G] in
theorem uncounted_conclude {t : Engine S D M G × Option Failure} {failure : Failure}
    (h : (conclude g t).result = .error failure) : Uncounted t.1 (conclude g t) := by
  obtain ⟨e, _ | _⟩ := t
  · cases h
  · exact ⟨rfl, rfl, rfl⟩

omit [Inhabited M] [Payload G] [Inhabited G] in
theorem uncounted_enterScatter {hf : g.finalized = true} {picks : List Nat}
    {t : Engine S D M G × Option Failure} {failure : Failure}
    (h : (enterScatter g hf picks t).result = .error failure) :
    Uncounted t.1 (enterScatter g hf picks t) := by
  obtain ⟨e, _ | _⟩ := t
  · obtain ⟨round, signals, events⟩ := uncounted_conclude h
    exact ⟨round, signals, events⟩
  · exact ⟨rfl, rfl, rfl⟩

omit [Inhabited M] [Payload G] [Inhabited G] in
theorem uncounted_enterApply {hf : g.finalized = true} {schedule : Schedule}
    {t : Engine S D M G × Option Failure} {failure : Failure}
    (h : (enterApply g hf schedule t).result = .error failure) :
    Uncounted t.1 (enterApply g hf schedule t) := by
  obtain ⟨e, _ | _⟩ := t
  · by_cases hidle : e.numActive = 0
    · rw [enterApply_of_idle rfl hidle]
      exact ⟨rfl, rfl, rfl⟩
    · rw [enterApply_of_busy rfl hidle] at h ⊢
      obtain ⟨round, signals, events⟩ := uncounted_enterScatter (g := g.overwrite _) h
      exact ⟨round, signals, events⟩
  · exact ⟨rfl, rfl, rfl⟩

omit [Inhabited M] in
/-- A round that fails is not counted. -/
theorem uncounted_of_step_error {failure : Failure} {schedule : Schedule}
    (h : (e.step g schedule).result = .error failure) : Uncounted e (e.step g schedule) := by
  cases hr : e.refusal g with
  | some cause =>
    rw [step_of_refusal hr]
    exact ⟨rfl, rfl, rfl⟩
  | none =>
    obtain ⟨hf, hs⟩ := fits_of_refusal hr
    rw [step_eq_stepOn hf hs] at h ⊢
    unfold stepOn at h ⊢
    split at h
    · cases h
    · rename_i hcap
      rw [if_neg hcap]
      split at h
      · rename_i htiled
        rw [if_pos htiled]
        obtain ⟨round, signals, events⟩ := uncounted_enterApply h
        exact ⟨round, signals, events⟩
      · rename_i htiled
        rw [if_neg htiled]
        exact ⟨rfl, rfl, rfl⟩

/-- The engine made anew, with what is pending in this one, at the same round. -/
def renewed (e : Engine S D M G) : Engine S D M G :=
  { ofProgram e.program e.prototype e.accumulator.size e.options with
    accumulator := e.accumulator
    round := e.round }

/-- There is such an engine. -/
theorem Reachable.create_renewed (reachable : Reachable e) :
    ∃ fresh, Engine.create e.program e.prototype e.accumulator.size e.options = .ok fresh ∧
      e.renewed = { fresh with accumulator := e.accumulator, round := e.round } := by
  have htiled : Tiling.fits e.accumulator.size e.options.workers = true := by
    rw [← reachable.wellShaped.size_slots]
    exact reachable.wellShaped.tiled
  exact ⟨_, create_eq_ofProgram htiled, rfl⟩

/-- What is made anew is a peer. -/
theorem Reachable.peers_renewed (reachable : Reachable e) : Peers e e.renewed := by
  have hsize : e.renewed.slots.size = e.slots.size :=
    Array.size_replicate.trans reachable.wellShaped.size_slots.symm
  refine ⟨rfl, rfl, rfl, rfl, ?_, hsize, rfl⟩
  rw [reachable.staffed, ← hsize]
  exact staffed_restarted _

/-- **Nothing of a failed round leaks into later ones.** Engines that differ in leftovers only have
the same outcomes of a step, a run and a transformation, under schedules that are the same or come
to the same. An engine at which a step has failed, in whatever way, is still at the same round, and
from then on cannot be told apart from an engine that is made anew with the same pending. A step
that is refused changes nothing at all. -/
theorem Reachable.leftovers_ignored (reachable : Reachable e) (g : Graph D) :
    (∀ e', Peers e e' →
      (∀ schedule schedule' : Schedule,
        SameCourse e.program e.options.workers schedule schedule' →
        SameOutcome e e' (e.step g schedule) (e'.step g schedule')) ∧
      (∀ schedules schedules' : Nat → Schedule,
        (∀ i, SameCourse e.program e.options.workers (schedules i) (schedules' i)) →
        SameOutcome e e' (e.run g schedules) (e'.run g schedules')) ∧
      (∀ (transformation : Transformation D M) (picks picks' : List Nat),
        SameDeliveries M e.options.workers picks picks' →
        SameOutcome e e' (e.transform g transformation picks)
          (e'.transform g transformation picks'))) ∧
    (∀ (schedule : Schedule) (failure : Failure), (e.step g schedule).result = .error failure →
      (e.step g schedule).engine.round = e.round ∧
      (∃ fresh, Engine.create e.program e.prototype e.accumulator.size e.options = .ok fresh ∧
        (e.step g schedule).engine.renewed =
          { fresh with
            accumulator := (e.step g schedule).engine.accumulator
            round := e.round }) ∧
      ∀ (g' : Graph D) (script script' : List (Command D M × Timing)),
        SameScript e.program e.options.workers script script' →
        ((e.step g schedule).engine.renewed.session g' script').map account =
          ((e.step g schedule).engine.session g' script).map account) ∧
    (∀ schedule : Schedule,
      (g.finalized = false → e.step g schedule =
        { engine := e, graph := g, result := .error (.error .notFinalized) }) ∧
      (g.finalized = true → g.numVertices ≠ e.accumulator.size → e.step g schedule =
        { engine := e
          graph := g
          result :=
            .error (.error (.vertexCountMismatch e.accumulator.size g.numVertices)) })) := by
  have w := reachable.wellShaped
  refine ⟨?_, ?_, ?_⟩
  · intro e' t
    refine ⟨?_, ?_, ?_⟩
    · intro schedule schedule' course
      exact t.step w course
    · intro schedules schedules' course
      exact t.run w course
    · intro transformation picks picks' order
      exact t.transform w transformation order
  · intro schedule failure h
    have behind : Reachable (e.step g schedule).engine := .step reachable g schedule
    have hshape := w.sameShape_step g schedule
    refine ⟨(uncounted_of_step_error h).round, ?_, ?_⟩
    · have hnew := behind.create_renewed
      rwa [hshape.program, hshape.prototype, hshape.size_accumulator, hshape.options,
        (uncounted_of_step_error h).round] at hnew
    · intro g' script script' same
      refine behind.peers_renewed.session_eq behind.wellShaped ?_
      rwa [hshape.program, hshape.options]
  · intro schedule
    constructor
    · intro hf
      exact step_of_refusal (by rw [refusal, if_pos hf]) schedule
    · intro hf hne
      exact step_of_refusal (by rw [refusal, if_neg (by simp [hf]), if_pos hne]) schedule

/-- The program that tallies, with states that only fit in a byte if they are small. Its vertices
tell vertex 0 what they hear as soon as they do. -/
def narrowTally : VertexProgram UInt64 UInt64 UInt64 UInt64 :=
  { tally with
    save := fun state =>
      if state < 256 then .ok [state.toUInt8] else .error (.snapshot (.refused "too large"))
    asides := { init := fun _ _ payload _ => ⟨[⟨0, payload⟩], none⟩ } }

/-- Two workers that keep states as bytes, and something pending everywhere. -/
def narrowWorkers : Engine UInt64 UInt64 UInt64 UInt64 :=
  (ofProgram narrowTally 0 2 ⟨3, 2, true⟩).signalAll

/-- Signals to all vertices and a step, with workers that take their turns one after another. -/
def retry : List (Command UInt64 UInt64 × Timing) :=
  [(.signalAll, ⟨[], fun _ => default⟩), (.step, ⟨[], fun _ => default⟩)]

/-- The second worker cannot save its state when the first one has parked its own. -/
theorem leftovers_ignored_narrow :
    let halfway := (narrowWorkers.step (Graph.twoCycle 5 300) default).engine
    (narrowWorkers.step (Graph.twoCycle 5 300) default).result =
        .error (.error (.snapshot (.refused "too large"))) ∧
      halfway.slots.toList.map Slot.isLive = [false, true] ∧ halfway.phase = .apply ∧
      halfway.round = 0 ∧
      (halfway.renewed.session (Graph.twoCycle 1 2) retry).map account =
        (halfway.session (Graph.twoCycle 1 2) retry).map account := by
  have new : Engine.create narrowTally 0 2 ⟨3, 2, true⟩ =
      .ok (ofProgram narrowTally 0 2 ⟨3, 2, true⟩) := rfl
  have failed : (narrowWorkers.step (Graph.twoCycle 5 300) default).result =
      .error (.error (.snapshot (.refused "too large"))) := rfl
  obtain ⟨-, behind, -⟩ := Reachable.leftovers_ignored (e := narrowWorkers)
    (.signalAll (.create new)) (Graph.twoCycle 5 300)
  obtain ⟨hround, -, hsession⟩ := behind default _ failed
  exact ⟨failed, rfl, rfl, hround, hsession _ retry retry (.refl retry)⟩

end Sessions

end Engine

end Superstep
