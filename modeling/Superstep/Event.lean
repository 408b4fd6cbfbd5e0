/-!
# Events

What happens while a graph is prepared or an engine runs, beyond the result. Operations return
their events in order, also when they fail.
-/

namespace Superstep

/-- Something worth telling. -/
inductive Event where
  /-- Finalizing dropped edges that repeat another one. -/
  | droppedDuplicates (duplicates : Nat)
  /-- A source list announces more sources than may be taken. -/
  | truncatedSources (announced maxSources : Nat)
  /-- Some sources are not vertices of the graph. -/
  | sourcesOutside (outside : Nat)
  /-- A round was completed: its number, the vertices that had a payload, the signals they sent,
  and how many of these reached an empty slot. -/
  | roundComplete (round active signals activated : Nat)
deriving DecidableEq

namespace Event

def message : Event → String
  | droppedDuplicates _ => "dropped duplicate edges"
  | truncatedSources _ _ => "truncating source list"
  | sourcesOutside _ => "some sources are not in the graph"
  | roundComplete _ _ _ _ => "round complete"

/-- The numbers of an event, by name. -/
def figures : Event → List (String × Nat)
  | droppedDuplicates duplicates => [("duplicates", duplicates)]
  | truncatedSources announced maxSources =>
    [("announced", announced), ("max_sources", maxSources)]
  | sourcesOutside outside => [("outside", outside)]
  | roundComplete round active signals activated =>
    [("round", round), ("active", active), ("signals", signals), ("activated", activated)]

end Event

end Superstep
