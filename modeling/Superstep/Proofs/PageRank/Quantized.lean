import Mathlib.Algebra.Group.Action.Defs
import Mathlib.Algebra.Order.BigOperators.Group.List
import Mathlib.Algebra.Order.Ring.Nat
import Superstep.PageRank.Quantized
import Superstep.Proofs.Binary64.Whole
import Superstep.Proofs.Lookup

/-!
# What quantizing keeps

A key survives if its weight gives a count, and only then. The counts of what survives are not zero,
so neither is their total, and every one of them gets its share back. This holds for all weights,
also for those that are no numbers.

## Main results

* `isSome_get?_dequantize_quantize`: the keys that survive
* `dequantize_eq_of_sumOf`: counting the total in natural numbers rounds nothing away
-/

namespace Superstep.PageRank

section Keys

variable {W : Type} [Weight W]

/-- The count of a weight. -/
def countOf (w : W) : UInt16 := Weight.toUInt16 (w * (quantum : W))

theorem get?_quantize (ppr : Sparse W) (id : VertexId) :
    (quantize ppr).get? id = (ppr.get? id).bind fun w =>
      if countOf w = 0 then none else some (countOf w) :=
  VertexMap.get?_filterMap ..

theorem get?_quantize_eq_some_iff {ppr : Sparse W} {id : VertexId} {count : UInt16} :
    (quantize ppr).get? id = some count ↔
      ∃ w, ppr.get? id = some w ∧ countOf w = count ∧ count ≠ 0 := by
  rw [get?_quantize, Option.bind_eq_some_iff]
  refine exists_congr fun w => and_congr_right fun _ => ?_
  by_cases hzero : countOf w = 0
  · rw [if_pos hzero, hzero]
    constructor
    · intro h
      cases h
    · rintro ⟨rfl, hne⟩
      exact absurd rfl hne
  · rw [if_neg hzero, Option.some.injEq]
    constructor
    · rintro rfl
      exact ⟨rfl, hzero⟩
    · rintro ⟨rfl, -⟩
      rfl

/-- A count that is not zero shows in the total. -/
theorem totalCount_ne_zero {counts : VertexMap UInt16} {id : VertexId} {count : UInt16}
    (h : counts.get? id = some count) (hne : count ≠ 0) : totalCount counts ≠ 0 := by
  intro htotal
  have hmem : count.toNat ∈ counts.values.map UInt16.toNat :=
    List.mem_map_of_mem (List.mem_map.2 ⟨(id, count), VertexMap.get?_eq_some_iff.1 h, rfl⟩)
  have hzero : count.toNat = 0 := List.sum_eq_zero_iff.1 htotal _ hmem
  exact hne (UInt16.toNat_inj.1 hzero)

theorem get?_dequantize {counts : VertexMap UInt16} (h : totalCount counts ≠ 0) (id : VertexId) :
    (dequantize counts : Sparse W).get? id = (counts.get? id).map fun count =>
      Sparse.accumulate none ((count.toNat : W) / (totalCount counts : W)) := by
  rw [dequantize]
  refine (congrArg (VertexMap.get? · id) (if_neg h)).trans ?_
  rw [VertexMap.get?_filterMap, Option.map_eq_bind]
  rfl

/-- **The keys that survive** are those whose weight gives a count. -/
theorem isSome_get?_dequantize_quantize {ppr : Sparse W} {id : VertexId} :
    ((dequantize (quantize ppr) : Sparse W).get? id).isSome = true ↔
      ∃ w, ppr.get? id = some w ∧ countOf w ≠ 0 := by
  have hkeys : (∃ count, (quantize ppr).get? id = some count) ↔
      ∃ w, ppr.get? id = some w ∧ countOf w ≠ 0 := by
    constructor
    · rintro ⟨count, hcount⟩
      obtain ⟨w, hw, rfl, hne⟩ := get?_quantize_eq_some_iff.1 hcount
      exact ⟨w, hw, hne⟩
    · rintro ⟨w, hw, hne⟩
      exact ⟨_, get?_quantize_eq_some_iff.2 ⟨w, hw, rfl, hne⟩⟩
  rw [← hkeys]
  by_cases htotal : totalCount (quantize ppr) = 0
  · have hempty : (dequantize (quantize ppr) : Sparse W) = VertexMap.empty := if_pos htotal
    rw [hempty, VertexMap.get?_empty]
    refine iff_of_false Bool.false_ne_true ?_
    rintro ⟨count, hcount⟩
    obtain ⟨-, -, -, hne⟩ := get?_quantize_eq_some_iff.1 hcount
    exact totalCount_ne_zero hcount hne htotal
  · rw [get?_dequantize htotal, Option.isSome_map, Option.isSome_iff_exists]

end Keys

/-! ### The total -/

/-- The total stays far below where whole numbers have gaps. -/
theorem totalCount_lt (counts : VertexMap UInt16) : totalCount counts < 2 ^ 53 := by
  have hlength : counts.values.length ≤ UInt32.size := by
    rw [VertexMap.values, List.length_map]
    exact counts.length_entries_le
  have hle : totalCount counts ≤ (counts.values.map UInt16.toNat).length • 65535 := by
    refine List.sum_le_card_nsmul _ _ fun n hn => ?_
    obtain ⟨count, -, rfl⟩ := List.mem_map.1 hn
    have := count.toNat_lt
    omega
  rw [List.length_map, smul_eq_mul] at hle
  simp only [UInt32.size] at hlength
  omega

/-- **Counting the total in natural numbers rounds nothing away.** -/
theorem dequantize_eq_of_sumOf (counts : VertexMap UInt16) :
    (dequantize counts : Sparse Binary64) =
      let total := Sparse.sumOf (counts.values.map fun count => (count.toNat : Binary64))
      if Weight.sameValue total 0 then VertexMap.empty
      else counts.filterMap fun entry =>
        some (Sparse.accumulate none ((entry.2.toNat : Binary64) / total)) := by
  have hlt := totalCount_lt counts
  by_cases hempty : counts.values = []
  · have hzero : totalCount counts = 0 := by rw [totalCount, hempty]; rfl
    have hsum : Sparse.sumOf (counts.values.map fun count => (count.toNat : Binary64)) =
        Binary64.signedZero true := by rw [hempty]; rfl
    have hsame : Weight.sameValue (Binary64.signedZero true) 0 = true := by decide
    exact (if_pos hzero).trans (by rw [hsum]; exact (if_pos hsame).symm)
  · -- the sum starts from the negative zero, which the first count turns into a whole number
    have hsum : Sparse.sumOf (counts.values.map fun count => (count.toNat : Binary64)) =
        (totalCount counts : Binary64) := by
      have hne : counts.values.map UInt16.toNat ≠ [] := by rwa [Ne, List.map_eq_nil_iff]
      have hbound : 0 + totalCount counts < 2 ^ 53 := by rwa [Nat.zero_add]
      have hfold := Binary64.foldl_add_ofNat Binary64.isWhole_signedZero hbound hne
      rw [List.map_map, Nat.zero_add] at hfold
      exact hfold
    have hsame : Weight.sameValue (totalCount counts : Binary64) 0 =
        decide (totalCount counts = 0) := Binary64.sameValue_ofNat_zero hlt
    show _ = if Weight.sameValue (Sparse.sumOf _) 0 = true then _ else _
    rw [hsum, hsame]
    simp only [decide_eq_true_eq]
    rfl

end Superstep.PageRank
