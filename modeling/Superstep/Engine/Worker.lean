import Superstep.Engine.Errand

/-!
# Workers

A worker runs the phases of a round over one contiguous range of vertices. This module has what one
worker does, given its vertices and what it finds in their slots; how workers share a graph and an
accumulator is the engine's matter.

Between phases the state of a vertex rests in a slot: `live` as it is, or `parked` as the bytes
that it saved. A worker stops at its first failure and leaves the slots behind it as they are.
-/

namespace Superstep

/-- The state of a vertex between the phases of a round. -/
inductive Slot (S G : Type) where
  /-- The vertex does not take part. -/
  | idle
  | live (state : S) (total : G)
  | parked (bytes : List UInt8)

/-- A worker: its range of vertices and its figures for the current round. -/
structure Worker where
  id : Nat
  /-- The first vertex of the range. -/
  start : Nat
  /-- The first vertex behind the range. -/
  stop : Nat
  /-- Vertices that took part. -/
  active : Nat := 0
  /-- Signals that were sent. -/
  sent : Nat := 0
  /-- Signals that reached an empty slot. -/
  activated : Nat := 0
deriving DecidableEq

namespace Worker

/-- The number of vertices in the range. -/
def numVertices (w : Worker) : Nat := w.stop - w.start

/-- The vertices of the range. -/
def ids (w : Worker) : List VertexId :=
  (List.range' w.start w.numVertices).map UInt32.ofNat

/-- The worker with its figures at zero. -/
def reset (w : Worker) : Worker := { id := w.id, start := w.start, stop := w.stop }

end Worker

variable {S D M G : Type}

/-- The signals before the first whose target has no slot, and the fault that this one is. If all
of them have one, the fault is the given one. -/
def deliverable (numSlots : Nat) (signals : List (Signal M)) (fault : Option Fault := none) :
    List (Signal M) × Option Fault :=
  let inRange (signal : Signal M) : Bool := signal.target.toNat < numSlots
  (signals.takeWhile inRange,
    ((signals.dropWhile inRange).head?.map fun signal => .outOfRange signal.target numSlots).or
      fault)

/-! ### Gathering -/

/-- What a worker leaves behind when it gathered. -/
structure Gathered (S G : Type) where
  /-- The slots of the worker's vertices, as far as it came. -/
  slots : List (Slot S G)
  failure : Option Fault

/-- Starts a vertex on its payload: init and gather. -/
def VertexProgram.begin [Payload G] [Inhabited G] (p : VertexProgram S D M G) (prototype : S)
    (c : Context) (v : Vertex D) (payload : Option M) : Slot S G :=
  match payload with
  | none => .idle
  | some payload =>
    let state := p.init c v payload prototype
    .live state (p.total c v state)

/-- What is sent before a vertex has begun, and the fault that keeps it from that. -/
def VertexProgram.overture (p : VertexProgram S D M G) (prototype : S) (c : Context) (v : Vertex D)
    (payload : Option M) : List (Signal M) × Option Fault :=
  let aside := payload.elim {} (p.opening prototype c v)
  deliverable c.numVertices aside.signals aside.fault

/-- Takes what is pending for the given vertices, in order, and starts every vertex that had
something. The slots that are settled already come last first. -/
def VertexProgram.gatherFrom [Payload G] [Inhabited G] (p : VertexProgram S D M G) (prototype : S)
    (c : Context) (settled : List (Slot S G)) : List (Vertex D) → Errand M (Gathered S G)
  | [] => .done ⟨settled.reverse, none⟩
  | v :: rest =>
    .take v.id fun payload =>
      match p.overture prototype c v payload with
      | (signals, none) =>
        .sendAll signals <|
          p.gatherFrom prototype c (p.begin prototype c v payload :: settled) rest
      | (signals, some fault) => .sendAll signals (.done ⟨settled.reverse, some fault⟩)

/-- The errand of a worker that gathers. -/
def VertexProgram.gatherAll [Payload G] [Inhabited G] (p : VertexProgram S D M G) (prototype : S)
    (c : Context) (vertices : List (Vertex D)) : Errand M (Gathered S G) :=
  p.gatherFrom prototype c [] vertices

/-! ### Applying -/

/-- How far applying a vertex came. -/
structure Attempt (S D M : Type) where
  /-- The signals that were delivered, in order. -/
  signals : List (Signal M)
  state : S
  value : D
  fault : Option Fault

/-- Applies the total of a vertex. If a signal cannot be delivered, state and value are what they
were when it was sent. -/
def VertexProgram.attempt (p : VertexProgram S D M G) (c : Context) (v : Vertex D) (state : S)
    (total : G) : Attempt S D M :=
  let (emissions, broken) := p.asides.apply c v.site total state v.value
  let (signals, fault) := deliverable c.numVertices (emissions.map Emission.signal) broken
  let left := (emissions[signals.length]?.map Emission.value).getD
    (p.apply c v.site total state v.value)
  { signals, state := left.1, value := left.2, fault }

/-- What a worker leaves behind when it applied totals. -/
structure Applied (S D M G : Type) where
  /-- The signals that were delivered, in order. -/
  signals : List (Signal M)
  /-- The values of the worker's vertices. -/
  values : List D
  slots : List (Slot S G)
  failure : Option Failure

namespace Applied

/-- Puts a vertex in front. -/
def cons (signals : List (Signal M)) (value : D) (slot : Slot S G) (rest : Applied S D M G) :
    Applied S D M G :=
  { rest with
    signals := signals ++ rest.signals
    values := value :: rest.values
    slots := slot :: rest.slots }

/-- Stops before the given vertices. -/
def stop (failure : Option Failure) (rest : List (Vertex D × Slot S G)) : Applied S D M G :=
  ⟨[], rest.map fun item => item.1.value, rest.map Prod.snd, failure⟩

end Applied

/-- Applies the totals of live vertices in order. With `persist`, every state is saved at once and
parked; a state that cannot be saved stops the worker. -/
def VertexProgram.applyAll (p : VertexProgram S D M G) (c : Context) (persist : Bool) :
    List (Vertex D × Slot S G) → Applied S D M G
  | [] => Applied.stop none []
  | (v, .live state total) :: rest =>
    let ⟨signals, state, value, fault⟩ := p.attempt c v state total
    match fault with
    | some fault => (Applied.stop (some (.fault fault)) rest).cons signals value (.live state total)
    | none =>
      if persist then
        match p.save state with
        | .ok bytes => (p.applyAll c persist rest).cons signals value (.parked bytes)
        | .error cause =>
          (Applied.stop (some (.error cause)) rest).cons signals value (.live state total)
      else (p.applyAll c persist rest).cons signals value (.live state total)
  | (v, slot) :: rest => (p.applyAll c persist rest).cons [] v.value slot

/-! ### Scattering -/

/-- What a worker leaves behind when it scattered. -/
structure Scattered (S M G : Type) where
  /-- The signals that were delivered, in order. -/
  signals : List (Signal M)
  slots : List (Slot S G)
  failure : Option Failure

namespace Scattered

/-- Puts a vertex in front, whose slot is idle from now on. -/
def cons (signals : List (Signal M)) (rest : Scattered S M G) : Scattered S M G :=
  { rest with signals := signals ++ rest.signals, slots := .idle :: rest.slots }

/-- Stops before the given vertices. -/
def stop (failure : Option Failure) (rest : List (Vertex D × Slot S G)) : Scattered S M G :=
  ⟨[], rest.map Prod.snd, failure⟩

end Scattered

/-- The state that a slot holds, if it holds one. A parked one is loaded into the prototype. -/
def VertexProgram.revive (p : VertexProgram S D M G) (prototype : S) :
    Slot S G → Except Error (Option S)
  | .idle => .ok none
  | .live state _ => .ok (some state)
  | .parked bytes => (p.load bytes prototype).map some

/-- Scatters from every vertex that took part, in order, and leaves its slot idle. -/
def VertexProgram.scatterAll (p : VertexProgram S D M G) (prototype : S) (c : Context) :
    List (Vertex D × Slot S G) → Scattered S M G
  | [] => ⟨[], [], none⟩
  | (v, slot) :: rest =>
    match p.revive prototype slot with
    | .error cause => (Scattered.stop (some (.error cause)) rest).cons []
    | .ok none => (p.scatterAll prototype c rest).cons []
    | .ok (some state) =>
      let sends := p.sends c v state
      match deliverable c.numVertices sends.signals sends.fault with
      | (signals, none) => (p.scatterAll prototype c rest).cons signals
      | (signals, some fault) => (Scattered.stop (some (.fault fault)) rest).cons signals

/-! ### Transforming

Outside of rounds, a transformation may change the value of every vertex and send signals on the
way. Each signal comes with the value that the vertex has when it is sent, so that what a fault
leaves behind is determined. One that breaks off on its own is one that sends a signal there to a
vertex that does not exist. -/

/-- What happens to a vertex outside of rounds: the signals it sends and its value at the end. -/
abbrev Transformation (D M : Type) := Context → Site → D → List (Emission D M) × D

/-- What a worker leaves behind when it transformed its vertices. -/
structure Transformed (D M : Type) where
  signals : List (Signal M)
  values : List D
  failure : Option Fault

namespace Transformed

/-- Puts a vertex in front. -/
def cons (signals : List (Signal M)) (value : D) (rest : Transformed D M) : Transformed D M :=
  { rest with signals := signals ++ rest.signals, values := value :: rest.values }

/-- Stops before the given vertices. -/
def stop (failure : Option Fault) (rest : List (Vertex D)) : Transformed D M :=
  ⟨[], rest.map Vertex.value, failure⟩

end Transformed

/-- Transforms vertices in order. A signal whose target has no slot stops the worker; its vertex
keeps the value that it had when it sent it. -/
def transformAll (transformation : Transformation D M) (c : Context) :
    List (Vertex D) → Transformed D M
  | [] => ⟨[], [], none⟩
  | v :: rest =>
    let (emissions, value) := transformation c v.site v.value
    match deliverable c.numVertices (emissions.map Emission.signal) with
    | (signals, none) => (transformAll transformation c rest).cons signals value
    | (signals, some fault) =>
      let value := (emissions[signals.length]?.map Emission.value).getD value
      (Transformed.stop (some fault) rest).cons signals value

end Superstep
