import Superstep.Proofs.Rational

/-!
# Messages form a commutative monoid

A vector of exact weights is known by its keys and by its weights, where an absent entry weighs
nothing. Weights alone would not do: entries that cancel stay, so two vectors may weigh the same and
still differ. What merging does is therefore stated for both at once, by `IsSum`. There is one sum
of two vectors, and merging finds it, so that its laws, and that scaling respects it, are laws of
the vectors themselves and not only of their weights.

Adding to an entry and creating one are different steps of the program, and yet adding a pair is
merging a vector with one entry. So collecting pairs is merging as well, and takes them in any
order.

## Main definitions

* `IsSum`: the keys of both vectors and the sums of their weights

## Main results

* `ext_weightAt`: a vector is known by its keys and its weights
* `isSum_iff`: merging finds the sum
* `collect_eq_foldl_merge`: collecting is merging
* `merge_laws`: all of it together
-/

namespace Superstep.Sparse

/-! ### Entries under any weights -/

section Entries

variable {W : Type} [Weight W]

theorem mem_keys_merge (v w : Sparse W) (id : VertexId) :
    id ∈ (v.merge w).keys ↔ id ∈ v.keys ∨ id ∈ w.keys := by
  have hcontains (v : Sparse W) : v.contains id = true ↔ v.get? id ≠ none :=
    Option.isSome_iff_ne_none
  rw [VertexMap.mem_keys_iff, VertexMap.mem_keys_iff, VertexMap.mem_keys_iff, hcontains, hcontains,
    hcontains, get?_merge_eq_added, added_ne_none]

theorem keys_scaled (v : Sparse W) (factor : W) : (v.scaled factor).keys = v.keys := by
  rw [scaled, VertexMap.keys, VertexMap.filterMap, VertexMap.keys]
  simp only [Option.map_some, List.filterMap_eq_map', List.map_map]
  rfl

/-- Adding a pair is merging a vector with one entry. -/
theorem add_eq_merge (v : Sparse W) (id : VertexId) (w : W) :
    v.add id w = v.merge (VertexMap.singleton id w) := by
  refine VertexMap.ext_get? fun other => ?_
  rw [get?_add, get?_merge, VertexMap.get?_singleton]
  by_cases h : other = id
  · subst h
    simp
  · simp [h, Ne.symm h]

/-- **Collecting is merging.** -/
theorem collect_eq_foldl_merge (pairs : List (VertexId × W)) :
    collect pairs =
      (pairs.map fun pair => VertexMap.singleton pair.1 pair.2).foldl merge VertexMap.empty := by
  rw [collect, List.foldl_map]
  simp only [add_eq_merge]

end Entries

/-! ### Sums of exact weights -/

/-- A vector is known by its keys and its weights. -/
theorem ext_weightAt {v w : Sparse ℚ} (hkeys : ∀ id, id ∈ v.keys ↔ id ∈ w.keys)
    (hweights : ∀ id, v.weightAt id = w.weightAt id) : v = w := by
  refine VertexMap.ext_get? fun id => ?_
  have hkey : (v.get? id).isSome = true ↔ (w.get? id).isSome = true :=
    VertexMap.mem_keys_iff.symm.trans ((hkeys id).trans VertexMap.mem_keys_iff)
  have hweight : (v.get? id).getD 0 = (w.get? id).getD 0 := hweights id
  cases hv : v.get? id with
  | none =>
    rw [hv] at hkey
    exact (Option.not_isSome_iff_eq_none.1 (mt hkey.2 Bool.false_ne_true)).symm
  | some x =>
    rw [hv] at hkey hweight
    obtain ⟨y, hw⟩ := Option.isSome_iff_exists.1 (hkey.1 rfl)
    rw [hw] at hweight ⊢
    exact congrArg some hweight

/-- The keys are those of both vectors, and the weights are the sums of theirs. -/
structure IsSum (a b total : Sparse ℚ) : Prop where
  keys : ∀ id, id ∈ total.keys ↔ id ∈ a.keys ∨ id ∈ b.keys
  weights : ∀ id, total.weightAt id = a.weightAt id + b.weightAt id

theorem isSum_merge (a b : Sparse ℚ) : IsSum a b (a.merge b) where
  keys := mem_keys_merge a b
  weights id := by
    rw [weightAt, get?_merge_eq_added, getD_added]
    rfl

/-- **Merging finds the sum**, and there is no other one. -/
theorem isSum_iff {a b total : Sparse ℚ} : IsSum a b total ↔ total = a.merge b := by
  constructor
  · intro h
    have hmerge := isSum_merge a b
    refine ext_weightAt (fun id => (h.keys id).trans (hmerge.keys id).symm) fun id => ?_
    rw [h.weights, hmerge.weights]
  · rintro rfl
    exact isSum_merge a b

theorem isSum_empty (a : Sparse ℚ) : IsSum a VertexMap.empty a where
  keys id := by simp [VertexMap.keys, VertexMap.empty]
  weights id := (add_zero _).symm

/-- **Scaling respects sums.** -/
theorem IsSum.scaled {a b total : Sparse ℚ} (h : IsSum a b total) (factor : ℚ) :
    IsSum (a.scaled factor) (b.scaled factor) (total.scaled factor) where
  keys id := by
    rw [keys_scaled, keys_scaled, keys_scaled]
    exact h.keys id
  weights id := by
    rw [weightAt_scaled, weightAt_scaled, weightAt_scaled, h.weights, add_mul]

/-- Pairs are collected in any order. -/
theorem collect_eq_of_perm {pairs pairs' : List (VertexId × ℚ)} (h : pairs.Perm pairs') :
    collect pairs = collect pairs' := by
  rw [collect_eq_foldl_merge, collect_eq_foldl_merge]
  refine (h.map _).foldl_eq' (fun a _ b _ v => ?_) VertexMap.empty
  exact orderFree_merge.mergeInto_swap (some v) a b

/-- **Messages form a commutative monoid on which scaling is linear.** Merging finds the sum of two
vectors, is commutative and associative and has the empty vector as its identity. Scaling keeps the
keys, multiplies the weights and respects merging. Collecting pairs is merging the vectors with one
entry each, and the order of the pairs does not count. -/
theorem merge_laws (a b c : Sparse ℚ) (factor : ℚ) (pairs pairs' : List (VertexId × ℚ)) :
    ((∀ total, IsSum a b total ↔ total = a.merge b) ∧
      a.merge b = b.merge a ∧ (a.merge b).merge c = a.merge (b.merge c) ∧
      a.merge VertexMap.empty = a ∧ merge VertexMap.empty a = a) ∧
    ((a.scaled factor).keys = a.keys ∧
      (∀ id, (a.scaled factor).weightAt id = a.weightAt id * factor) ∧
      (a.merge b).scaled factor = (a.scaled factor).merge (b.scaled factor)) ∧
    collect pairs =
      (pairs.map fun pair => VertexMap.singleton pair.1 pair.2).foldl merge VertexMap.empty ∧
    (pairs.Perm pairs' → collect pairs = collect pairs') := by
  have right := (isSum_iff.1 (isSum_empty a)).symm
  have left := (orderFree_merge.comm VertexMap.empty a).trans right
  exact ⟨⟨fun _ => isSum_iff, orderFree_merge.comm a b, orderFree_merge.assoc a b c, right, left⟩,
    ⟨keys_scaled a factor, weightAt_scaled a factor, isSum_iff.1 ((isSum_merge a b).scaled factor)⟩,
    collect_eq_foldl_merge pairs, collect_eq_of_perm⟩

/-- Entries that cancel are kept in every order. -/
theorem merge_laws_cancelled :
    (collect [(1, 1 / 2), (2, 1), (1, -1 / 2)] : Sparse ℚ) =
        collect [(1, -1 / 2), (1, 1 / 2), (2, 1)] ∧
      (collect [(1, 1 / 2), (2, 1), (1, -1 / 2)] : Sparse ℚ).entries = [(1, 0), (2, 1)] := by
  refine ⟨?_, by decide +kernel⟩
  exact (merge_laws VertexMap.empty VertexMap.empty VertexMap.empty 1 _ _).2.2.2
    (by decide +kernel)

end Superstep.Sparse
