import Superstep.Engine.Basic
import Superstep.Event

/-!
# Rounds

A round has three phases, and a barrier between them.

* **Gather.** Every pending payload is taken, and every vertex that had one is started on it. All
  vertices see the values as they were before the round.
* **Apply.** Every vertex that was started changes its own value, and nothing else.
* **Scatter.** Every vertex that was started sends its signals. They are pending for the next
  round, merged per target in the order in which the schedule delivers them.

What a program sends before it scatters is delivered as soon as it is sent. If its target has been
visited in this round already, or is not visited any more, the signal waits for the next round; but
a signal that is sent while payloads are taken may still be found in the round that sends it. Only
what is sent in the scatter phase is counted.

A round that finds nothing pending ends the run and is not counted.

## Failures

A program may break off, or send a signal to a vertex that does not exist, in any phase. Saving a
state may fail in the apply phase, loading one in the scatter phase. The workers that do not fail
still finish the phase; the failing ones stop and report no signals. The round is then not
completed: its number stays, and the phase shows how far it came. A fault of any worker counts
before an error of any other, and otherwise the first worker's failure counts. What is left in the
slots has no influence on later rounds, because gathering decides every slot anew.

An engine whose slots cannot be shared among its workers fails before anything is taken.
-/

namespace Superstep

/-- Where an operation on an engine and a graph leads. -/
structure Outcome (S D M G α : Type) where
  engine : Engine S D M G
  graph : Graph D
  events : List Event := []
  result : Except Failure α

/-- What a run amounts to. -/
structure RunSummary where
  rounds : Nat
  signals : Nat
deriving DecidableEq

namespace Accumulator

variable {M : Type}

/-- A signal and the worker that sends it. -/
structure Post (M : Type) where
  worker : Nat
  signal : Signal M

/-- Delivers signals in order. The second component has the worker of every signal that reached an
empty slot. Payloads are merged whether they fit or not: what programs send is taken to fit, and as
long as it does, every delivery is an addition. -/
def deliver [Payload M] (a : Accumulator M) (posts : List (Post M)) :
    Accumulator M × List Nat :=
  posts.foldl
    (fun (a, activations) post =>
      let activations :=
        if (a.peek post.signal.target).isNone then post.worker :: activations else activations
      (a.deposit post.signal.target post.signal.payload, activations))
    (a, [])

end Accumulator

namespace Engine

variable {S D M G : Type}

/-- The failure of a phase: the first worker's fault, or else the first worker's error. -/
def firstFailure (failures : List (Option Failure)) : Option Failure :=
  let failures := failures.filterMap id
  (failures.find? Failure.isFault).or failures.head?

/-! ### The phases -/

/-- What the workers do while they gather, each for its share. -/
def gatherErrands [Payload G] [Inhabited G] (e : Engine S D M G) (n : Network D) :
    List (Errand M (Gathered S G)) :=
  (e.share (e.occupants n)).map fun (_, items) =>
    e.program.gatherAll e.prototype (e.context n) (items.map Prod.fst)

/-- The engine behind what the workers gathered, and the failure if there is one. Slots to which a
worker did not come stay as they are. -/
def settle (e : Engine S D M G) (n : Network D) (gathered : List (Gathered S G)) :
    Engine S D M G × Option Failure :=
  let settled := (e.share (e.occupants n)).zipWith
    (fun (worker, items) g =>
      ({ worker.reset with active := g.slots.countP fun slot => slot matches .live .. },
        g.slots ++ (items.map Prod.snd).drop g.slots.length))
    gathered
  ({ e with
      workers := settled.map Prod.fst
      slots := overlay e.slots (settled.flatMap Prod.snd) },
    firstFailure (gathered.map fun g => g.failure.map .fault))

/-- Takes what is pending and starts the vertices that had something: the engine, and the failure
if there is one. -/
def gatherPhase [Payload M] [Payload G] [Inhabited G] (e : Engine S D M G) (n : Network D)
    (picks : List Nat) : Engine S D M G × Option Failure :=
  let (accumulator, gathered) := Errand.run e.accumulator picks (e.gatherErrands n)
  { e with accumulator }.settle n gathered

/-- How many vertices take part in the round. -/
def numActive (e : Engine S D M G) : Nat := (e.workers.map Worker.active).foldr (· + ·) 0

/-- How many signals the workers sent. -/
def numSent (e : Engine S D M G) : Nat := (e.workers.map Worker.sent).foldr (· + ·) 0

/-- How many signals reached an empty slot. -/
def numActivated (e : Engine S D M G) : Nat :=
  (e.workers.map Worker.activated).foldr (· + ·) 0

/-- Delivers the workers' signals. The lanes that are marked are counted and reported. -/
def deliverLanes [Payload M] (e : Engine S D M G) (picks : List Nat)
    (lanes : List (List (Signal M) × Bool)) : Engine S D M G :=
  let posts := lanes.mapIdx fun i lane => lane.1.map fun signal => ⟨i, signal⟩
  let (accumulator, activations) := e.accumulator.deliver (weave picks posts)
  let report (i : Nat) (worker : Worker) : Worker :=
    match lanes[i]? with
    | some (signals, true) =>
      { worker with sent := signals.length, activated := activations.count i }
    | _ => worker
  { e with accumulator, workers := e.workers.mapIdx report }

/-- What the workers make of their shares when they apply. -/
def appliedBy (e : Engine S D M G) (n : Network D) : List (Applied S D M G) :=
  (e.share (e.occupants n)).map fun (_, items) =>
    e.program.applyAll (e.context n) e.options.persist items

/-- Applies what was gathered: the engine, the values, and the failure if there is one. -/
def applyPhase [Payload M] (e : Engine S D M G) (n : Network D) (picks : List Nat) :
    Engine S D M G × List D × Option Failure :=
  let applied := e.appliedBy n
  let delivered := e.deliverLanes picks (applied.map fun a => (a.signals, false))
  ({ delivered with slots := overlay e.slots (applied.flatMap Applied.slots) },
    applied.flatMap Applied.values,
    firstFailure (applied.map Applied.failure))

/-- What the workers make of their shares when they scatter. -/
def scatteredBy (e : Engine S D M G) (n : Network D) : List (Scattered S M G) :=
  (e.share (e.occupants n)).map fun (_, items) =>
    e.program.scatterAll e.prototype (e.context n) items

/-- Sends the signals of the vertices that took part: the engine, and the failure if there is
one. -/
def scatterPhase [Payload M] (e : Engine S D M G) (n : Network D) (picks : List Nat) :
    Engine S D M G × Option Failure :=
  let scattered := e.scatteredBy n
  let delivered := e.deliverLanes picks
    (scattered.map fun s => (s.signals, s.failure.isNone))
  ({ delivered with slots := overlay e.slots (scattered.flatMap Scattered.slots) },
    firstFailure (scattered.map Scattered.failure))

/-! ### A round -/

/-- Counts a round whose scatter phase was completed. -/
def completeRound (e : Engine S D M G) : Engine S D M G :=
  let round := e.round + 1
  { e with
    signals := e.signals + e.numSent
    round
    phase := if e.options.maxRounds ≤ round then .done else .gather }

/-- The event of a round whose scatter phase was completed. -/
def roundEvent (e : Engine S D M G) : Event :=
  .roundComplete e.round e.numActive e.numSent e.numActivated

/-- What follows the scatter phase: the round is completed, or it has failed. -/
def conclude (g : Graph D) : Engine S D M G × Option Failure → Outcome S D M G Bool
  | (e, some failure) => { engine := e, graph := g, result := .error failure }
  | (e, none) =>
    let completed := e.completeRound
    { engine := completed
      graph := g
      events := [e.roundEvent]
      result := .ok (completed.phase != .done) }

/-- What follows the apply phase: the scatter phase, unless the round has failed. -/
def enterScatter [Payload M] (g : Graph D) (h : g.finalized = true) (picks : List Nat) :
    Engine S D M G × Option Failure → Outcome S D M G Bool
  | (e, some failure) => { engine := e, graph := g, result := .error failure }
  | (e, none) => conclude g ({ e with phase := .scatter }.scatterPhase (g.network h) picks)

/-- What follows the gather phase: the apply phase, unless the round has failed or nothing was
pending. -/
def enterApply [Payload M] (g : Graph D) (h : g.finalized = true) (schedule : Schedule) :
    Engine S D M G × Option Failure → Outcome S D M G Bool
  | (e, some failure) =>
    { engine := { e with phase := .gather }, graph := g, result := .error failure }
  | (e, none) =>
    if e.numActive = 0 then
      { engine := { e with phase := .done }, graph := g, result := .ok false }
    else
      let (applied, values, failure) :=
        { e with phase := .apply }.applyPhase (g.network h) schedule.apply
      enterScatter (g.overwrite values) h schedule.scatter (applied, failure)

/-- A round on a graph that fits the engine. -/
def stepOn [Payload M] [Payload G] [Inhabited G] (e : Engine S D M G) (g : Graph D)
    (h : g.finalized = true) (schedule : Schedule) : Outcome S D M G Bool :=
  if e.options.maxRounds ≤ e.round then
    { engine := { e with phase := .done }, graph := g, result := .ok false }
  else if e.isTiled then
    enterApply g h schedule (e.gatherPhase (g.network h) schedule.gather)
  else { engine := { e with phase := .gather }, graph := g, result := .error (.fault .overflow) }

theorem finalized_of_refusal_eq_none {e : Engine S D M G} {g : Graph D}
    (h : e.refusal g = none) : g.finalized = true := by
  unfold refusal at h
  split at h
  · cases h
  · rename_i hf
    simpa using hf

/-- Runs a single round. The result says whether another round may follow. -/
def step [Payload M] [Payload G] [Inhabited G] (e : Engine S D M G) (g : Graph D)
    (schedule : Schedule) : Outcome S D M G Bool :=
  match h : e.refusal g with
  | some cause => { engine := e, graph := g, result := .error (.error cause) }
  | none => e.stepOn g (finalized_of_refusal_eq_none h) schedule

/-! ### Whole runs

A round after which another may follow has brought the run closer to its cap. -/

/-- An outcome after which another round may follow comes from an engine that completed one. -/
theorem conclude_ok_true {g : Graph D} {t : Engine S D M G × Option Failure}
    (h : (conclude g t).result = .ok true) :
    (conclude g t).engine.round = t.1.round + 1 ∧
      (conclude g t).engine.options = t.1.options := by
  obtain ⟨e, _ | failure⟩ := t
  · exact ⟨rfl, rfl⟩
  · cases h

theorem enterScatter_ok_true [Payload M] {g : Graph D} {h : g.finalized = true}
    {picks : List Nat} {t : Engine S D M G × Option Failure}
    (hr : (enterScatter g h picks t).result = .ok true) :
    (enterScatter g h picks t).engine.round = t.1.round + 1 ∧
      (enterScatter g h picks t).engine.options = t.1.options := by
  obtain ⟨e, _ | failure⟩ := t
  · exact conclude_ok_true hr
  · cases hr

theorem enterApply_ok_true [Payload M] {g : Graph D} {h : g.finalized = true}
    {schedule : Schedule} {t : Engine S D M G × Option Failure}
    (hr : (enterApply g h schedule t).result = .ok true) :
    (enterApply g h schedule t).engine.round = t.1.round + 1 ∧
      (enterApply g h schedule t).engine.options = t.1.options := by
  obtain ⟨e, _ | failure⟩ := t
  · unfold enterApply at hr ⊢
    simp only at hr ⊢
    split at hr
    · cases hr
    · rename_i hactive
      rw [if_neg hactive]
      exact enterScatter_ok_true hr
  · cases hr

theorem round_lt_of_stepOn [Payload M] [Payload G] [Inhabited G] {e : Engine S D M G}
    {g : Graph D} {h : g.finalized = true} {schedule : Schedule}
    (hr : (e.stepOn g h schedule).result = .ok true) :
    (e.stepOn g h schedule).engine.round = e.round + 1 ∧
      (e.stepOn g h schedule).engine.options = e.options ∧ e.round < e.options.maxRounds := by
  unfold stepOn at hr ⊢
  split at hr
  · cases hr
  · rename_i hcap
    split at hr
    · rename_i htiled
      rw [if_neg hcap, if_pos htiled]
      obtain ⟨hround, hoptions⟩ := enterApply_ok_true hr
      exact ⟨hround, hoptions, Nat.lt_of_not_le hcap⟩
    · cases hr

theorem round_lt_of_step [Payload M] [Payload G] [Inhabited G] {e : Engine S D M G}
    {g : Graph D} {schedule : Schedule} (hr : (e.step g schedule).result = .ok true) :
    (e.step g schedule).engine.round = e.round + 1 ∧
      (e.step g schedule).engine.options = e.options ∧ e.round < e.options.maxRounds := by
  revert hr
  unfold step
  split
  · simp
  · exact round_lt_of_stepOn

/-- Runs rounds until one is the last, each under its own schedule. -/
def runRounds [Payload M] [Payload G] [Inhabited G] (e : Engine S D M G) (g : Graph D)
    (schedules : Nat → Schedule) : Outcome S D M G Unit :=
  match _h : e.step g (schedules e.round) with
  | { engine, graph, events, result := .error failure } =>
    { engine, graph, events, result := .error failure }
  | { engine, graph, events, result := .ok false } => { engine, graph, events, result := .ok () }
  | { engine, graph, events, result := .ok true } =>
    let rest := engine.runRounds graph schedules
    { rest with events := events ++ rest.events }
termination_by e.options.maxRounds - e.round
decreasing_by
  have hr : (e.step g (schedules e.round)).result = .ok true := by rw [_h]
  replace hr := round_lt_of_step hr
  rw [_h] at hr
  obtain ⟨h1, h2, h3⟩ := hr
  simp only at h1 h2
  rw [h1, h2]
  omega

/-- Runs rounds until the cap is reached or nothing is pending. -/
def run [Payload M] [Payload G] [Inhabited G] (e : Engine S D M G) (g : Graph D)
    (schedules : Nat → Schedule := fun _ => default) : Outcome S D M G RunSummary :=
  let outcome := e.runRounds g schedules
  { engine := outcome.engine
    graph := outcome.graph
    events := outcome.events
    result := outcome.result.map fun () =>
      ⟨outcome.engine.round - e.round, outcome.engine.signals - e.signals⟩ }

/-! ### Transformations -/

/-- What the workers make of their shares when they transform. -/
def transformedBy (e : Engine S D M G) (n : Network D) (transformation : Transformation D M) :
    List (Transformed D M) :=
  (e.share n.vertices).map fun (_, vertices) =>
    transformAll transformation (e.context n) vertices

/-- Transforms the vertices of a graph that fits the engine. -/
def transformOn [Payload M] (e : Engine S D M G) (g : Graph D) (h : g.finalized = true)
    (transformation : Transformation D M) (picks : List Nat) : Outcome S D M G Nat :=
  let transformed := e.transformedBy (g.network h) transformation
  let cleared : Engine S D M G := { e with workers := e.workers.map Worker.reset }
  let delivered := cleared.deliverLanes picks
    (transformed.map fun t => (t.signals, t.failure.isNone))
  let g := g.overwrite (transformed.flatMap Transformed.values)
  match firstFailure (transformed.map fun t => t.failure.map .fault) with
  | some failure => { engine := delivered, graph := g, result := .error failure }
  | none =>
    { engine := { delivered with signals := delivered.signals + delivered.numSent }
      graph := g
      result := .ok delivered.numSent }

/-- Transforms every vertex outside of rounds. What is sent on the way is pending for the next
round. The result is the number of signals. -/
def transform [Payload M] (e : Engine S D M G) (g : Graph D)
    (transformation : Transformation D M) (picks : List Nat := []) : Outcome S D M G Nat :=
  match h : e.refusal g with
  | some cause => { engine := e, graph := g, result := .error (.error cause) }
  | none =>
    if e.isTiled then e.transformOn g (finalized_of_refusal_eq_none h) transformation picks
    else { engine := e, graph := g, result := .error (.fault .overflow) }

end Engine

end Superstep
