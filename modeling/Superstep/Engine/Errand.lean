import Superstep.Accumulator
import Superstep.Engine.Program

/-!
# Errands

While payloads are taken, what a worker does to the accumulator depends on what it finds there: a
vertex takes part if something is pending for it, and may send on the way. An errand is such a
course of operations, with a branch for every payload that an operation may find. Each operation is
atomic, so errands that run side by side are one sequence of operations, interleaved somehow.
-/

namespace Superstep

/-- What one worker does to an accumulator, operation by operation, and what it comes to. -/
inductive Errand (M R : Type) where
  | done (result : R)
  /-- Takes what is pending for a vertex. -/
  | take (vertex : VertexId) (next : Option M → Errand M R)
  | send (signal : Signal M) (next : Errand M R)

namespace Errand

variable {M R : Type}

/-- Sends signals in order. -/
def sendAll (signals : List (Signal M)) (next : Errand M R) : Errand M R :=
  signals.foldr .send next

variable [Payload M]

/-- The next operation, if there is one: the accumulator and the errand behind it. -/
def advance (a : Accumulator M) : Errand M R → Option (Accumulator M × Errand M R)
  | .done _ => none
  | .take vertex next =>
    let found := a.peek vertex
    some (a.clear vertex, next found)
  | .send signal next => some (a.deposit signal.target signal.payload, next)

/-- All operations up to the end. -/
def finish (a : Accumulator M) : Errand M R → Accumulator M × R
  | .done result => (a, result)
  | .take vertex next =>
    let found := a.peek vertex
    (next found).finish (a.clear vertex)
  | .send signal next => next.finish (a.deposit signal.target signal.payload)

/-- Errands one after the other. -/
def finishAll (a : Accumulator M) : List (Errand M R) → Accumulator M × List R
  | [] => (a, [])
  | errand :: errands =>
    let (a, result) := errand.finish a
    let (a, results) := finishAll a errands
    (a, result :: results)

/-- Errands side by side. A pick lets one of them do its next operation; what is left when the picks
run out follows errand by errand. -/
def run (a : Accumulator M) : List Nat → List (Errand M R) → Accumulator M × List R
  | [], errands => finishAll a errands
  | pick :: picks, errands =>
    match errands[pick]?.bind (advance a) with
    | some (a, next) => run a picks (errands.set pick next)
    | none => run a picks errands

end Errand

end Superstep
