import Superstep.VertexMap

/-!
# Faults

A fault is a broken term of use: the caller could have known better, and nothing in the data makes
up for it. Faults are results here, so what an operation leaves behind when it ends in one is part
of its meaning.

Counts are natural numbers, and arithmetic on them is exact. They are kept in 64 bits all the same:
`countLimit` is the first number that is none, and an operation whose counts reach it ends in
`Fault.overflow` instead of going on with another number.
-/

namespace Superstep

/-- Counts stay below this. -/
def countLimit : Nat := UInt64.size

/-- How a caller can break the terms of use. -/
inductive Fault where
  /-- The vertex has no slot in a table of this size. -/
  | outOfRange (vertex : VertexId) (slots : Nat)
  /-- A payload was demanded of an empty slot. -/
  | nothingPending (vertex : VertexId)
  /-- A count reached its limit. -/
  | overflow
  /-- A vertex program gave up in the middle of a step, in its own words. -/
  | broken (text : String)
deriving DecidableEq

/-- The text of a fault. -/
def Fault.message : Fault → String
  | .outOfRange vertex slots =>
    s!"vertex {vertex} out of range for accumulator of {slots} slots"
  | .nothingPending vertex => s!"get on vertex {vertex} with no pending payload"
  | .overflow => "count out of bounds"
  | .broken text => text

end Superstep
