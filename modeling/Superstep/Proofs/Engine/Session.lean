import Superstep.Proofs.Engine.Refinement

/-!
# Sessions with an engine

An engine and a graph go through a sequence of commands. Each command is carried out on what the
one before it left behind, also if that one failed. What can be seen of it from outside is a
`Sight`: the answer, the values of the vertices, what is pending, how far the run has come, and
what was told on the way. Slots and workers are not part of it.

The order in which the workers come to their turns is not the caller's choice. It is given beside
every command, as a `Timing`, so that two sessions can be asked for the same under different ones.
A payload that the caller signals has to fit what is pending, and is refused otherwise. What
programs and transformations send is taken to fit.

`StepsIn` finds the engines and graphs at which a session makes a round, those within a run
included, and `EndsApply` the states of such a round. They are what hypotheses about the states of a
session are stated with.

## Main definitions

* `Engine.execute`, `Engine.session`: one command, and a sequence of them
* `Engine.StepsIn`: where a session makes rounds
* `VertexProgram.finished`, `Engine.EndsApply`: the states that a worker, and a step, takes to the
  end of apply
-/

namespace Superstep

variable {S D M G : Type}

/-- What an engine can be asked to do. -/
inductive Command (D M : Type) where
  | signal (vertex : VertexId) (payload : M)
  | signalAll
  | transform (transformation : Transformation D M)
  | step
  /-- Rounds until the cap is reached or nothing is pending. -/
  | start

/-- In which order the workers come to their turns while a command is carried out. -/
structure Timing where
  transform : List Nat
  /-- By the number of the round. -/
  rounds : Nat → Schedule

/-- What a command answers. -/
inductive Reply where
  | signalled
  /-- A transformation, with the number of signals that it sent. -/
  | transformed (sent : Nat)
  /-- A step, and whether another may follow. -/
  | stepped (more : Bool)
  | ran (summary : RunSummary)
deriving DecidableEq

/-- What can be seen of a command once it was carried out. -/
structure Sight (D M : Type) where
  result : Except Failure Reply
  /-- What was told on the way, the figures of every completed round among it. -/
  events : List Event
  graph : Graph D
  pending : Accumulator M
  phase : Phase
  round : Nat
  /-- The number of signals sent so far. -/
  signals : Nat

namespace Outcome

variable {α β : Type}

/-- The outcome with its result as part of another type. -/
def map (f : α → β) (o : Outcome S D M G α) : Outcome S D M G β :=
  { engine := o.engine, graph := o.graph, events := o.events, result := o.result.map f }

/-- What can be seen of an outcome. -/
def sight (o : Outcome S D M G Reply) : Sight D M where
  result := o.result
  events := o.events
  graph := o.graph
  pending := o.engine.accumulator
  phase := o.engine.phase
  round := o.engine.round
  signals := o.engine.signals

end Outcome

/-- The states that a worker takes to the end of apply. It stops at a vertex that breaks off. -/
def VertexProgram.finished (p : VertexProgram S D M G) (c : Context) :
    List (Vertex D × Slot S G) → List S
  | [] => []
  | (v, .live state total) :: rest =>
    let attempt := p.attempt c v state total
    match attempt.fault with
    | some _ => []
    | none => attempt.state :: p.finished c rest
  | _ :: rest => p.finished c rest

namespace Engine

/-- The engine with its states saved between apply and scatter, or kept as they are. -/
def withPersist (e : Engine S D M G) (persist : Bool) : Engine S D M G :=
  { e with options := e.options.withPersist persist }

variable [Payload M] [Inhabited M] [Payload G] [Inhabited G]

/-- Carries a command out. -/
def execute (e : Engine S D M G) (g : Graph D) (timing : Timing) :
    Command D M → Outcome S D M G Reply
  | .signal vertex payload =>
    match e.signal vertex payload with
    | .ok signalled => { engine := signalled, graph := g, result := .ok .signalled }
    | .error fault => { engine := e, graph := g, result := .error (.fault fault) }
  | .signalAll => { engine := e.signalAll, graph := g, result := .ok .signalled }
  | .transform transformation => (e.transform g transformation timing.transform).map .transformed
  | .step => (e.step g (timing.rounds e.round)).map .stepped
  | .start => (e.run g timing.rounds).map .ran

/-- Carries commands out one after another. -/
def session (e : Engine S D M G) (g : Graph D) : List (Command D M × Timing) → List (Sight D M)
  | [] => []
  | (command, timing) :: rest =>
    let outcome := e.execute g timing command
    outcome.sight :: outcome.engine.session outcome.graph rest

/-! ### Where rounds are made -/

/-- The engines and graphs at which a run makes its steps. -/
inductive StepsFrom (schedules : Nat → Schedule) :
    Engine S D M G → Graph D → Engine S D M G → Graph D → Prop
  | first (e : Engine S D M G) (g : Graph D) : StepsFrom schedules e g e g
  | later {e e' : Engine S D M G} {g g' : Graph D}
      (more : (e.step g (schedules e.round)).result = .ok true)
      (rest : StepsFrom schedules (e.step g (schedules e.round)).engine
        (e.step g (schedules e.round)).graph e' g') : StepsFrom schedules e g e' g'

/-- The engines and graphs at which a session makes its steps, and the schedules of these. -/
inductive StepsIn : List (Command D M × Timing) →
    Engine S D M G → Graph D → Engine S D M G → Graph D → Schedule → Prop
  | step {e : Engine S D M G} {g : Graph D} {timing : Timing}
      {rest : List (Command D M × Timing)} :
      StepsIn ((.step, timing) :: rest) e g e g (timing.rounds e.round)
  | start {e e' : Engine S D M G} {g g' : Graph D} {timing : Timing}
      {rest : List (Command D M × Timing)} (run : StepsFrom timing.rounds e g e' g') :
      StepsIn ((.start, timing) :: rest) e g e' g' (timing.rounds e'.round)
  | later {e e' : Engine S D M G} {g g' : Graph D} {command : Command D M} {timing : Timing}
      {schedule : Schedule} {rest : List (Command D M × Timing)}
      (tail : StepsIn rest (e.execute g timing command).engine (e.execute g timing command).graph
        e' g' schedule) : StepsIn ((command, timing) :: rest) e g e' g' schedule

omit [Inhabited M] in
/-- The states that a step takes to the end of apply, in whichever worker's share. -/
def EndsApply (e : Engine S D M G) (g : Graph D) (schedule : Schedule) (state : S) : Prop :=
  ∃ hf : g.finalized = true, g.numVertices = e.accumulator.size ∧
    e.round < e.options.maxRounds ∧ (e.gatherPhase (g.network hf) schedule.gather).2 = none ∧
      let gathered := e.gathered (g.network hf) schedule.gather
      ∃ share ∈ gathered.share (gathered.occupants (g.network hf)),
        state ∈ e.program.finished (e.context (g.network hf)) share.2

/-! ### Runs that fail -/

omit [Inhabited M] in
/-- A run ends with the first step that fails. -/
theorem runRounds_of_error {e : Engine S D M G} {g : Graph D} {schedules : Nat → Schedule}
    {failure : Failure} (h : (e.step g (schedules e.round)).result = .error failure) :
    e.runRounds g schedules =
      { engine := (e.step g (schedules e.round)).engine
        graph := (e.step g (schedules e.round)).graph
        events := (e.step g (schedules e.round)).events
        result := .error failure } := by
  rw [runRounds]
  split <;> rename_i hs <;> rw [hs] at h <;> cases h
  rw [hs]

end Engine

end Superstep
