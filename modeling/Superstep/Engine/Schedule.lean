/-!
# Schedules

The workers of a phase run side by side, each going through its own operations in order. What they
do to shared state is one sequence: some interleaving of the workers' sequences. A list of picks
names it, each pick letting one worker do its next operation. Every interleaving is given by some
picks, and without picks the workers go one after the other.
-/

namespace Superstep

/-- Interleaves lanes as `picks` says. A pick of a lane that has nothing left is passed over, and
what is left when the picks run out follows lane by lane. -/
def weave {α : Type} : List Nat → List (List α) → List α
  | [], lanes => lanes.flatten
  | pick :: picks, lanes =>
    match lanes[pick]? with
    | some (next :: rest) => next :: weave picks (lanes.set pick rest)
    | _ => weave picks lanes

/-- How the workers' operations interleave in one round. -/
structure Schedule where
  /-- When payloads are taken, and when signals are delivered that are sent meanwhile. -/
  gather : List Nat := []
  /-- When signals are delivered that applying sends. -/
  apply : List Nat := []
  /-- When signals are delivered that scattering sends. -/
  scatter : List Nat := []

instance : Inhabited Schedule := ⟨{}⟩

end Superstep
