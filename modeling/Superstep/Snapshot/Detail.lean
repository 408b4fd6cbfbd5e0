import Superstep.Json.Basic
import Superstep.Json.Scanner

/-!
# What a snapshot keeps of a vertex

A snapshot is written either as an index, compact and lossy, for the next query, or in full, to go
on from exactly where a run stood. What that means for a vertex is up to the type of its value.
-/

namespace Superstep.Snapshot

/-- How much of the values a snapshot keeps. -/
inductive Detail where
  | index
  | full
deriving DecidableEq

/-- Values that a snapshot can keep. -/
class Persist (D : Type) where
  save : Detail → D → Json
  load : Detail → Json → Except Json.Fault D

end Superstep.Snapshot
