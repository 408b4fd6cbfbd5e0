import Mathlib.Algebra.Order.Field.Rat
import Mathlib.Algebra.BigOperators.Group.List.Basic
import Superstep.Json.Weight
import Superstep.Proofs.Sparse

/-!
# Exact weights

Rational numbers are weights whose operations round nothing, so the definitions of the page-rank
programs can be read as formulas. `weightAt` reads a vector as a function on vertices, for which an
absent entry is zero; it takes merging to addition, whatever the order.

## Main results

* `Sparse.orderFree_merge`: the order of deliveries does not count
* `getD_mergeAllInto_add`: merged weights are a sum
* `Sparse.weightAt_mergeAllInto`: merged vectors are a sum of functions
-/

namespace Superstep

instance : Weight ℚ where
  decideLT := inferInstance
  abs := abs
  emptySum := 0
  sameValue x y := x == y
  toUInt16 x := UInt16.ofNat (min x.floor.toNat 65535)

/-- Written down, an exact weight is a natural number or the nearest binary64 number. -/
instance : JsonWeight ℚ where
  toJson x :=
    if x.den = 1 ∧ 0 ≤ x.num then Json.ofNat x.num.toNat
    else Json.ofBinary64 (Binary64.round (x < 0) (x.num.natAbs <<< 1074) x.den)
  ofNumber
    | .natural n => n
    | .negative n => -n
    | .real x => x.signedUnits / Binary64.unitsOfOne

theorem Sparse.fromZero (w : ℚ) : FromZero w := zero_add w

/-- Weights that are merged add up. -/
theorem getD_mergeAllInto_add (weights : List ℚ) (pending : Option ℚ) :
    (mergeAllInto (· + ·) pending weights).getD 0 = pending.getD 0 + weights.sum := by
  induction weights generalizing pending with
  | nil => simp
  | cons w weights ih =>
    rw [mergeAllInto_cons, ih, List.sum_cons, Option.getD_some, ← add_assoc]
    cases pending with
    | none => rw [mergeInto, Option.elim_none, Option.getD_none, zero_add]
    | some old => rfl

theorem sum_filterMap {α M : Type} [AddMonoid M] (f : α → Option M) (l : List α) :
    (l.filterMap f).sum = (l.map fun a => (f a).getD 0).sum := by
  induction l with
  | nil => rfl
  | cons a l ih =>
    rw [List.filterMap_cons, List.map_cons, List.sum_cons, ← ih]
    cases f a with
    | none => rw [Option.getD_none, zero_add]
    | some w => rw [Option.getD_some, List.sum_cons]

namespace Sparse

/-- The weight of a vertex, zero if there is no entry. -/
def weightAt (v : Sparse ℚ) (id : VertexId) : ℚ := (v.get? id).getD 0

theorem sum_eq (v : Sparse ℚ) : v.sum = v.values.sum := List.sum_eq_foldl.symm

theorem accumulate_eq (old : Option ℚ) (w : ℚ) : accumulate old w = old.getD 0 + w := rfl

/-- What arrives is added, also where there is nothing yet. -/
theorem getD_added (old arrival : Option ℚ) :
    (added old arrival).getD 0 = old.getD 0 + arrival.getD 0 := by
  cases arrival with
  | none => simp [added]
  | some w => rfl

theorem weightAt_singleton (key : VertexId) (w : ℚ) (id : VertexId) :
    weightAt (VertexMap.singleton key w) id = if key = id then w else 0 := by
  rw [weightAt, VertexMap.get?_singleton]
  split <;> rfl

theorem weightAt_add (v : Sparse ℚ) (key : VertexId) (w : ℚ) (id : VertexId) :
    (v.add key w).weightAt id = v.weightAt id + if id = key then w else 0 := by
  rw [weightAt, get?_add, weightAt]
  by_cases h : id = key
  · subst h
    simp [accumulate_eq]
  · simp [h]

theorem weightAt_scaled (v : Sparse ℚ) (factor : ℚ) (id : VertexId) :
    (v.scaled factor).weightAt id = v.weightAt id * factor := by
  rw [weightAt, get?_scaled, weightAt]
  cases v.get? id with
  | none => simp
  | some w => simp [accumulate_eq]

/-- Exact weights add up to the same in any order. -/
theorem orderFree_added : OrderFree (added : Option ℚ → Option ℚ → Option ℚ) where
  comm x y := by
    cases x <;> cases y <;> simp [added, accumulate_eq, add_comm]
  assoc x y z := by
    cases x <;> cases y <;> cases z <;> simp [added, accumulate_eq, add_assoc]

/-- Exact weights may be merged in any order. -/
theorem orderFree_merge : OrderFree (Payload.merge : Sparse ℚ → Sparse ℚ → Sparse ℚ) where
  comm v w := by
    refine VertexMap.ext_get? fun id => ?_
    have hcomm := orderFree_added.comm (v.get? id) (w.get? id)
    rwa [← get?_merge_eq_added, ← get?_merge_eq_added] at hcomm
  assoc u v w := by
    refine VertexMap.ext_get? fun id => ?_
    have hassoc := orderFree_added.assoc (u.get? id) (v.get? id) (w.get? id)
    rw [← get?_merge_eq_added, ← get?_merge_eq_added, ← get?_merge_eq_added,
      ← get?_merge_eq_added] at hassoc
    exact hassoc

/-- What is pending adds up, as functions. -/
theorem weightAt_mergeAllInto (arrivals : List (Sparse ℚ)) (id : VertexId) :
    ((mergeAllInto Payload.merge none arrivals).bind (·.get? id)).getD 0 =
      (arrivals.map (·.weightAt id)).sum := by
  rw [get?_mergeAllInto fun _ _ w _ => fromZero w, getD_mergeAllInto_add, sum_filterMap]
  exact zero_add _

end Sparse

end Superstep
