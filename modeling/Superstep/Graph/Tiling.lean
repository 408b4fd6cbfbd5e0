import Superstep.Fault

/-!
# Tiling vertices over workers

The vertices `0, …, n - 1` are cut into contiguous ranges of one length, the last of which may be
shorter. `ranges` gives the cuts as pairs of bounds and `chunks` cuts a list of one element per
vertex; both cut at the multiples of `chunkSize`, so the `i`-th chunk holds what belongs to the
vertices of the `i`-th range.

All of this is defined for any numbers. `fits` says which of them a program may ask for, and `tile`
refuses the others.
-/

namespace Superstep.Tiling

/-- The length of a range when `workers` of them share `n` vertices. No workers count as one, and
a range is never empty. -/
def chunkSize (n workers : Nat) : Nat :=
  let workers := max workers 1
  max ((n + workers - 1) / workers) 1

/-- The bounds of the ranges, the lower one included and the upper one not. -/
def ranges (n workers : Nat) : List (Nat × Nat) :=
  let length := chunkSize n workers
  (List.range ((n + length - 1) / length)).map fun i =>
    (i * length, min (i * length + length) n)

/-- Whether vertices and workers together are few enough to be counted. No workers count as one. -/
def fits (n workers : Nat) : Bool := n + max workers 1 < countLimit

/-- The ranges of as many vertices and workers as can be counted. -/
def tile (n workers : Nat) : Except Fault (List (Nat × Nat)) :=
  if fits n workers then .ok (ranges n workers) else .error .overflow

/-- Cuts a list into pieces of `length` elements, `fuel` of them at most. -/
def chunksUpTo {α : Type} (length : Nat) : Nat → List α → List (List α)
  | 0, _ => []
  | _, [] => []
  | fuel + 1, items => items.take length :: chunksUpTo length fuel (items.drop length)

/-- Cuts a list into pieces of `length` elements; the last may be shorter. There are at most as
many pieces as elements, because a piece has at least one. -/
def chunks {α : Type} (length : Nat) (items : List α) : List (List α) :=
  chunksUpTo length items.length items

end Superstep.Tiling
