import Superstep.VertexMap
import Superstep.Payload

/-!
# Sparse vectors

A sparse vector gives a weight to finitely many vertices; every other vertex counts as zero. An
entry is there because something was added to it, also when its weight is zero, so cancellation
never removes a key.

Adding to a key that is absent starts from zero: the new entry is `0 + w`, which is `w` for every
number but the negative zero. `singleton` and `insert` store their weight as it is.
-/

namespace Superstep

/-- Weights keyed by vertices. -/
abbrev Sparse (W : Type) := VertexMap W

namespace Sparse

variable {W : Type} [Weight W]

/-- The entry that `w` leaves behind where it meets the entry `old`. -/
def accumulate (old : Option W) (w : W) : W := old.getD 0 + w

/-- Adds `w` to the entry of `id`. -/
def add (v : Sparse W) (id : VertexId) (w : W) : Sparse W := v.upsert id (accumulate · w)

/-- Adds every entry of the second vector to the first. -/
def merge (v other : Sparse W) : Sparse W := VertexMap.mergeWith accumulate v other

/-- The vector that the pairs of a list add up to. -/
def collect (pairs : List (VertexId × W)) : Sparse W :=
  pairs.foldl (fun v pair => v.add pair.1 pair.2) VertexMap.empty

/-- Every weight times `factor`, collected anew. -/
def scaled (v : Sparse W) (factor : W) : Sparse W :=
  VertexMap.filterMap (fun entry => some (accumulate none (entry.2 * factor))) v

/-- The sum of a list of weights. -/
def sumOf (weights : List W) : W := weights.foldl (· + ·) Weight.emptySum

/-- The sum of all weights. -/
def sum (v : Sparse W) : W := sumOf (VertexMap.values v)

/-- Whether two vectors have the same keys and equal numbers under them. -/
def sameValues (v other : Sparse W) : Bool :=
  VertexMap.keys v == VertexMap.keys other &&
    (List.zipWith Weight.sameValue (VertexMap.values v) (VertexMap.values other)).all id

instance : Payload (Sparse W) where merge := merge

/-- The total magnitude of what a vector carries. -/
instance : Ranked (Sparse W) W := ⟨fun v => sumOf ((VertexMap.values v).map Weight.abs)⟩

end Sparse

end Superstep
