import Superstep.Fault
import Superstep.Payload

/-!
# Pending payloads

An accumulator has one slot per vertex, empty or holding one payload. What is added to an occupied
slot is merged into the payload there, so a vertex finds at most one payload however many signals
it was sent. Every operation touches one slot and is atomic: a run of several clients is one list
of operations, interleaved somehow.

A vertex beyond the table, `get` on an empty slot, and adding what does not fit what is pending are
faults of the caller. An operation that ends in a fault changes nothing.
-/

namespace Superstep

/-- One slot per vertex, with at most one payload in each. -/
structure Accumulator (M : Type) where
  slots : Array (Option M)

namespace Accumulator

variable {M : Type}

/-- The accumulator of `size` empty slots. -/
def ofSize (size : Nat) : Accumulator M := ⟨Array.replicate size none⟩

def size (a : Accumulator M) : Nat := a.slots.size

/-- Whether `vertex` has a slot. -/
def covers (a : Accumulator M) (vertex : VertexId) : Bool := vertex.toNat < a.size

/-- What is pending for `vertex`. -/
def peek (a : Accumulator M) (vertex : VertexId) : Option M := a.slots[vertex.toNat]?.join

/-- Empties the slot of `vertex`. -/
def clear (a : Accumulator M) (vertex : VertexId) : Accumulator M :=
  ⟨a.slots.modify vertex.toNat fun _ => none⟩

/-- Puts a payload into the slot of `vertex`, merging it into the one there. -/
def deposit [Payload M] (a : Accumulator M) (vertex : VertexId) (payload : M) : Accumulator M :=
  ⟨a.slots.modify vertex.toNat fun
    | some pending => some (Payload.merge pending payload)
    | none => some payload⟩

/-- The vertices with a pending payload and that payload, ascending. -/
def pending (a : Accumulator M) : List (VertexId × M) :=
  (List.range a.size).filterMap fun i =>
    (a.peek (UInt32.ofNat i)).map fun payload => (UInt32.ofNat i, payload)

/-- How many slots hold a payload. -/
def numPending (a : Accumulator M) : Nat := a.slots.countP Option.isSome

/-! ### Operations with their terms -/

/-- Runs an operation on a vertex that has a slot. -/
def onSlot {α : Type} (a : Accumulator M) (vertex : VertexId) (result : Except Fault α) :
    Except Fault α :=
  if a.covers vertex then result else .error (.outOfRange vertex a.size)

/-- Whether a payload fits what is pending for `vertex`. -/
def accepts [Payload M] (a : Accumulator M) (vertex : VertexId) (payload : M) : Bool :=
  (a.peek vertex).all fun pending => Payload.fits pending payload

/-- Adds a payload, which has to fit. The answer says whether the slot was empty. -/
def add [Payload M] (a : Accumulator M) (vertex : VertexId) (payload : M) :
    Except Fault (Bool × Accumulator M) :=
  a.onSlot vertex <|
    if a.accepts vertex payload then .ok ((a.peek vertex).isNone, a.deposit vertex payload)
    else .error .overflow

/-- Takes the pending payload out, if there is one. -/
def take? (a : Accumulator M) (vertex : VertexId) : Except Fault (Option M × Accumulator M) :=
  a.onSlot vertex (.ok (a.peek vertex, a.clear vertex))

/-- Takes the pending payload out; there has to be one. -/
def get (a : Accumulator M) (vertex : VertexId) : Except Fault (M × Accumulator M) :=
  a.onSlot vertex <| match a.peek vertex with
    | some payload => .ok (payload, a.clear vertex)
    | none => .error (.nothingPending vertex)

/-- Whether a payload is pending, and its priority; zero if none is. -/
def priority {W : Type} [Zero W] [Ranked M W] (a : Accumulator M) (vertex : VertexId) :
    Except Fault (Bool × W) :=
  a.onSlot vertex <| .ok <| match a.peek vertex with
    | some payload => (true, Ranked.priority payload)
    | none => (false, 0)

/-- Whether a payload is pending. -/
def isSet (a : Accumulator M) (vertex : VertexId) : Except Fault Bool :=
  a.onSlot vertex (.ok (a.peek vertex).isSome)

/-! ### Clients

A client is a list of operations. `perform` runs one of them; its second component is the table
that the operation leaves behind, whatever the answer. -/

/-- An operation of a client. -/
inductive Operation (M : Type) where
  | add (vertex : VertexId) (payload : M)
  | take (vertex : VertexId)
  | get (vertex : VertexId)
  | priority (vertex : VertexId)
  | isSet (vertex : VertexId)

/-- What an operation answers. -/
inductive Answer (M W : Type) where
  | added (wasEmpty : Bool)
  | taken (payload : Option M)
  | got (payload : M)
  | ranked (isPending : Bool) (priority : W)
  | set (isPending : Bool)

/-- One atomic operation: its answer and the table afterwards. -/
def perform {W : Type} [Payload M] [Zero W] [Ranked M W] (a : Accumulator M) :
    Operation M → Except Fault (Answer M W) × Accumulator M
  | .add vertex payload =>
    match a.add vertex payload with
    | .ok (wasEmpty, after) => (.ok (.added wasEmpty), after)
    | .error fault => (.error fault, a)
  | .take vertex =>
    match a.take? vertex with
    | .ok (payload, after) => (.ok (.taken payload), after)
    | .error fault => (.error fault, a)
  | .get vertex =>
    match a.get vertex with
    | .ok (payload, after) => (.ok (.got payload), after)
    | .error fault => (.error fault, a)
  | .priority vertex =>
    ((a.priority vertex).map fun (isPending, rank) => .ranked isPending rank, a)
  | .isSet vertex => ((a.isSet vertex).map .set, a)

/-- A sequence of operations: the answers in order and the table after the last. -/
def performAll {W : Type} [Payload M] [Zero W] [Ranked M W] (a : Accumulator M) :
    List (Operation M) → List (Except Fault (Answer M W)) × Accumulator M
  | [] => ([], a)
  | operation :: rest =>
    let (answer, after) := a.perform operation
    let (answers, last) := after.performAll rest
    (answer :: answers, last)

end Accumulator

end Superstep
