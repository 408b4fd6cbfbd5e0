import Mathlib.Algebra.BigOperators.Ring.Finset
import Mathlib.Algebra.BigOperators.Ring.List
import Mathlib.Data.Rat.Floor
import Mathlib.Tactic.FieldSimp
import Mathlib.Tactic.Linarith
import Superstep.Proofs.PageRank.Quantized
import Superstep.Proofs.Rational

/-!
# Quantized vectors approximate

A count falls short of its scaled weight by less than one, so the total of the counts falls short of
the scaled total by less than the number of entries. In a share of the total the two losses work
against each other: what the count itself lacks makes the share too small, and what the total lacks
makes it too large. Neither is as much as the number of entries, over the total of the counts.

This is about exact weights between zero and one. A weight above one is clamped, and the total of
the weights need not be one.

## Main definitions

* `countAt`: the count of a vertex, zero for those without
* `Fractional`: vectors of weights between zero and one

## Main results

* `countAt_quantize`: a count is the whole part of the scaled weight
* `sum_dequantize`: the shares of the total add up to one
* `dequantize_quantize_approximates`: the shares are close to those of the weights, and in order
-/

namespace Superstep.PageRank

/-- The count of a vertex, zero if there is none. -/
def countAt (counts : VertexMap UInt16) (id : VertexId) : ℕ :=
  (counts.get? id).elim 0 UInt16.toNat

/-- Vectors of weights between zero and one. -/
def Fractional (v : Sparse ℚ) : Prop := ∀ id w, v.get? id = some w → 0 ≤ w ∧ w ≤ 1

theorem Fractional.weightAt {v : Sparse ℚ} (h : Fractional v) (id : VertexId) :
    0 ≤ v.weightAt id ∧ v.weightAt id ≤ 1 := by
  rw [Sparse.weightAt]
  cases hw : v.get? id with
  | none => exact ⟨le_refl 0, zero_le_one⟩
  | some w => exact h id w hw

theorem Fractional.of_mem_values {v : Sparse ℚ} (h : Fractional v) {w : ℚ} (hw : w ∈ v.values) :
    0 ≤ w ∧ w ≤ 1 := by
  obtain ⟨⟨id, w⟩, hentry, rfl⟩ := List.mem_map.1 hw
  exact h id w (VertexMap.get?_eq_some_iff.2 hentry)

/-! ### Counts -/

/-- The count of a weight that is not clamped is the whole part of the scaled weight. -/
theorem toNat_countOf {w : ℚ} (h : w ≤ 1) : (countOf w).toNat = ⌊w * quantum⌋₊ := by
  have hscaled : w * quantum ≤ (65535 : ℕ) := by
    simpa [quantum] using
      mul_le_mul_of_nonneg_right h (Nat.cast_nonneg' quantum : (0 : ℚ) ≤ quantum)
  have hle : ⌊w * quantum⌋₊ ≤ 65535 := Nat.floor_le_of_le hscaled
  show (UInt16.ofNat (min ⌊w * quantum⌋₊ 65535)).toNat = _
  rw [Nat.min_eq_left hle, UInt16.toNat_ofNat_of_lt' (Nat.lt_succ_of_le hle)]

/-- A count falls short of its scaled weight by less than one. -/
theorem lt_toNat_countOf_add_one {w : ℚ} (h : 0 ≤ w ∧ w ≤ 1) :
    ((countOf w).toNat : ℚ) ≤ w * quantum ∧ w * quantum < (countOf w).toNat + 1 := by
  rw [toNat_countOf h.2]
  exact ⟨Nat.floor_le (mul_nonneg h.1 (Nat.cast_nonneg _)), Nat.lt_floor_add_one _⟩

/-- **A count is the whole part of the scaled weight**, and zero where that is zero. -/
theorem countAt_quantize {v : Sparse ℚ} (h : Fractional v) (id : VertexId) :
    countAt (quantize v) id = ⌊v.weightAt id * quantum⌋₊ := by
  rw [countAt, get?_quantize, Sparse.weightAt]
  cases hw : v.get? id with
  | none => simp
  | some w =>
    rw [Option.bind_some, Option.getD_some, ← toNat_countOf (h id w hw).2]
    split
    · rename_i hzero
      rw [hzero]
      rfl
    · rfl

/-- Dropping counts that are zero does not change the total. -/
theorem totalCount_quantize {W : Type} [Weight W] (v : Sparse W) :
    totalCount (quantize v) = (v.values.map fun w => (countOf w).toNat).sum := by
  have hkept : (quantize v).values.map UInt16.toNat = v.values.filterMap fun w =>
      if countOf w = 0 then none else some (countOf w).toNat := by
    rw [quantize]
    refine (congrArg _ (VertexMap.values_filterMap (fun w =>
      if countOf w = 0 then none else some (countOf w)) v)).trans ?_
    rw [List.map_filterMap]
    refine List.filterMap_congr fun w _ => ?_
    split <;> rfl
  show List.sum _ = _
  rw [hkept, sum_filterMap]
  refine congrArg List.sum (List.map_congr_left fun w _ => ?_)
  split
  · rename_i hzero
    rw [hzero]
    rfl
  · rfl

/-- **What the total lacks** is less than one for every entry. -/
theorem Fractional.lt_totalCount_add {v : Sparse ℚ} (h : Fractional v) (hne : v.values ≠ []) :
    (totalCount (quantize v) : ℚ) ≤ v.sum * quantum ∧
      v.sum * quantum < totalCount (quantize v) + v.size := by
  have hcounts : (totalCount (quantize v) : ℚ) =
      (v.values.map fun w => ((countOf w).toNat : ℚ)).sum := by
    rw [totalCount_quantize, Nat.cast_list_sum, List.map_map]
    rfl
  have hsum : v.sum * quantum = (v.values.map fun w => w * (quantum : ℚ)).sum := by
    rw [Sparse.sum_eq, List.sum_map_mul_right, List.map_id']
  rw [hcounts, hsum]
  constructor
  · exact List.sum_le_sum fun w hw => (lt_toNat_countOf_add_one (h.of_mem_values hw)).1
  · calc (v.values.map fun w => w * (quantum : ℚ)).sum
        < (v.values.map fun w => ((countOf w).toNat : ℚ) + 1).sum :=
          List.sum_lt_sum_of_ne_nil hne _ _ fun w hw =>
            (lt_toNat_countOf_add_one (h.of_mem_values hw)).2
      _ = (v.values.map fun w => ((countOf w).toNat : ℚ)).sum + v.size := by
        rw [List.sum_map_add, List.map_const', List.sum_replicate, nsmul_one, VertexMap.values,
          List.length_map, VertexMap.size]

theorem Fractional.weightAt_le_sum {v : Sparse ℚ} (h : Fractional v) (id : VertexId) :
    v.weightAt id ≤ v.sum := by
  have hnonneg : ∀ w ∈ v.values, 0 ≤ w := fun w hw => (h.of_mem_values hw).1
  rw [Sparse.sum_eq, Sparse.weightAt]
  cases hw : v.get? id with
  | none => exact List.sum_nonneg hnonneg
  | some w =>
    exact List.single_le_sum hnonneg w
      (List.mem_map_of_mem (f := Prod.snd) (VertexMap.get?_eq_some_iff.1 hw))

/-! ### Shares -/

theorem weightAt_dequantize {counts : VertexMap UInt16} (h : totalCount counts ≠ 0)
    (id : VertexId) :
    (dequantize counts : Sparse ℚ).weightAt id = countAt counts id / totalCount counts := by
  rw [Sparse.weightAt, get?_dequantize h, countAt]
  cases counts.get? id with
  | none => simp
  | some count => exact zero_add _

/-- **The shares of the total add up to one.** -/
theorem sum_dequantize {counts : VertexMap UInt16} (h : totalCount counts ≠ 0) :
    (dequantize counts : Sparse ℚ).sum = 1 := by
  have hvalues : (dequantize counts : Sparse ℚ).values =
      counts.values.map fun count => (count.toNat : ℚ) * (totalCount counts : ℚ)⁻¹ := by
    rw [dequantize]
    refine (congrArg VertexMap.values (if_neg h)).trans ?_
    refine (VertexMap.values_filterMap (fun count : UInt16 =>
      some (Sparse.accumulate none ((count.toNat : ℚ) / (totalCount counts : ℚ)))) counts).trans ?_
    rw [List.filterMap_eq_map']
    refine List.map_congr_left fun count _ => ?_
    rw [Sparse.accumulate_eq, Option.getD_none, zero_add, div_eq_mul_inv]
  have htotal : (counts.values.map fun count => (count.toNat : ℚ)).sum = totalCount counts := by
    show _ = ((List.sum (counts.values.map UInt16.toNat) : ℕ) : ℚ)
    rw [Nat.cast_list_sum, List.map_map]
    rfl
  rw [Sparse.sum_eq, hvalues, List.sum_map_mul_right, htotal]
  exact mul_inv_cancel₀ (Nat.cast_ne_zero.2 h)

/-- A share of a total, if both fall short of what they stand for: the part by less than one, the
total by less than `k`. -/
theorem abs_div_sub_div_lt {part total part' total' k : ℚ} (htotal : 0 < total)
    (hpart : part ≤ part' ∧ part' < part + 1) (hnonneg : 0 ≤ part') (hle : part' ≤ total')
    (hlack : total ≤ total' ∧ total' < total + k) (hk : 1 ≤ k) :
    |part / total - part' / total'| < k / total := by
  have htotal' : 0 < total' := htotal.trans_le hlack.1
  have hdiff : part / total - part' / total' =
      (part * total' - part' * total) / total' / total := by
    field_simp
  rw [hdiff, abs_div, abs_of_pos htotal, div_lt_div_iff_of_pos_right htotal, abs_div,
    abs_of_pos htotal', div_lt_iff₀ htotal', abs_lt]
  constructor
  · nlinarith
  · nlinarith

section Quantized

variable {v : Sparse ℚ} (h : Fractional v) (hpos : 0 < totalCount (quantize v))

theorem values_ne_nil_of_totalCount_pos (hpos : 0 < totalCount (quantize v)) : v.values ≠ [] := by
  intro hempty
  rw [totalCount_quantize, hempty] at hpos
  exact Nat.lt_irrefl 0 hpos

/-- What survives has a share. -/
theorem pos_of_get?_dequantize_quantize (hpos : 0 < totalCount (quantize v)) {id : VertexId} {w : ℚ}
    (hw : (dequantize (quantize v) : Sparse ℚ).get? id = some w) : 0 < w := by
  rw [get?_dequantize hpos.ne'] at hw
  obtain ⟨count, hcount, rfl⟩ := Option.map_eq_some_iff.1 hw
  obtain ⟨-, -, -, hne⟩ := get?_quantize_eq_some_iff.1 hcount
  have hcount : 0 < count.toNat := Nat.pos_of_ne_zero fun hzero => hne (UInt16.toNat_inj.1 hzero)
  rw [Sparse.accumulate_eq, Option.getD_none, zero_add]
  exact div_pos (Nat.cast_pos.2 hcount) (Nat.cast_pos.2 hpos)

include h hpos

/-- **A share is close to the share of the weight.** -/
theorem Fractional.abs_weightAt_sub_lt (id : VertexId) :
    |(dequantize (quantize v) : Sparse ℚ).weightAt id - v.weightAt id / v.sum| <
      v.size / totalCount (quantize v) := by
  have hvalues := values_ne_nil_of_totalCount_pos hpos
  have hscale : (0 : ℚ) < quantum := by norm_num [quantum]
  have hsize : (1 : ℚ) ≤ v.size := by
    rw [Nat.one_le_cast, VertexMap.size, ← List.length_map (f := Prod.snd)]
    exact List.length_pos_iff.2 hvalues
  have hnonneg : 0 ≤ v.weightAt id * quantum := mul_nonneg (h.weightAt id).1 hscale.le
  have hle : v.weightAt id * quantum ≤ v.sum * quantum :=
    mul_le_mul_of_nonneg_right (h.weightAt_le_sum id) hscale.le
  rw [weightAt_dequantize hpos.ne', ← mul_div_mul_right (v.weightAt id) v.sum hscale.ne',
    countAt_quantize h]
  exact abs_div_sub_div_lt (Nat.cast_pos.2 hpos)
    ⟨Nat.floor_le hnonneg, Nat.lt_floor_add_one _⟩ hnonneg hle (h.lt_totalCount_add hvalues) hsize

/-- **Shares are ordered as the weights are.** -/
theorem Fractional.weightAt_le_weightAt {i j : VertexId} (hij : v.weightAt i ≤ v.weightAt j) :
    (dequantize (quantize v) : Sparse ℚ).weightAt i ≤
      (dequantize (quantize v) : Sparse ℚ).weightAt j := by
  rw [weightAt_dequantize hpos.ne', weightAt_dequantize hpos.ne', countAt_quantize h,
    countAt_quantize h]
  gcongr

end Quantized

/-- **Quantizing keeps the shares, up to a bound, and their order.** The counts of a vector of
weights between zero and one are the whole parts of the scaled weights, without those that are
zero. If any are left, the shares that they have in their total are positive, add up to one, are
close to the shares of the weights, and are ordered as the weights are. -/
theorem Fractional.dequantize_quantize_approximates {v : Sparse ℚ} (h : Fractional v) :
    (∀ id, countAt (quantize v) id = ⌊v.weightAt id * 65535⌋₊) ∧
    (∀ id count, (quantize v).get? id = some count → count ≠ 0) ∧
    (totalCount (quantize v) = 0 → (dequantize (quantize v) : Sparse ℚ) = VertexMap.empty) ∧
    (0 < totalCount (quantize v) →
      (∀ id w, (dequantize (quantize v) : Sparse ℚ).get? id = some w → 0 < w) ∧
      (dequantize (quantize v) : Sparse ℚ).sum = 1 ∧
      (∀ id, |(dequantize (quantize v) : Sparse ℚ).weightAt id - v.weightAt id / v.sum| <
        v.size / totalCount (quantize v)) ∧
      ∀ i j, v.weightAt i ≤ v.weightAt j →
        (dequantize (quantize v) : Sparse ℚ).weightAt i ≤
          (dequantize (quantize v) : Sparse ℚ).weightAt j) := by
  refine ⟨fun id => ?_, fun id count hcount => ?_, fun hzero => if_pos hzero, fun hpos => ?_⟩
  · rw [countAt_quantize h, show (quantum : ℚ) = 65535 by norm_num [quantum]]
  · obtain ⟨-, -, -, hne⟩ := get?_quantize_eq_some_iff.1 hcount
    exact hne
  · exact ⟨fun _ _ => pos_of_get?_dequantize_quantize hpos, sum_dequantize hpos.ne',
      h.abs_weightAt_sub_lt hpos, fun _ _ => h.weightAt_le_weightAt hpos⟩

/-- Of three weights the smallest is dropped, and the others make up for it. -/
theorem dequantize_quantize_approximates_three :
    let v : Sparse ℚ := Sparse.collect [(1, 3 / 4), (2, 1 / 8), (5, 1 / 100000)]
    Fractional v ∧ totalCount (quantize v) = 57342 ∧
      (dequantize (quantize v) : Sparse ℚ).sum = 1 ∧
      |(dequantize (quantize v) : Sparse ℚ).weightAt 5 - v.weightAt 5 / v.sum| < 3 / 57342 ∧
      (dequantize (quantize v) : Sparse ℚ).weightAt 2 ≤
        (dequantize (quantize v) : Sparse ℚ).weightAt 1 := by
  intro v
  have hentries : ∀ entry ∈ v.entries, 0 ≤ entry.2 ∧ entry.2 ≤ 1 := by decide +kernel
  have fractional : Fractional v := fun id w hw =>
    hentries (id, w) (VertexMap.get?_eq_some_iff.1 hw)
  have htotal : totalCount (quantize v) = 57342 := by decide +kernel
  have hsize : v.size = 3 := by decide +kernel
  have hordered : v.weightAt 2 ≤ v.weightAt 1 := by decide +kernel
  obtain ⟨-, -, -, hshares⟩ := fractional.dequantize_quantize_approximates
  obtain ⟨-, hsum, hclose, horder⟩ := hshares (by rw [htotal]; decide)
  have hfive := hclose 5
  rw [htotal, hsize] at hfive
  exact ⟨fractional, htotal, hsum, by exact_mod_cast hfive, horder 2 1 hordered⟩

end Superstep.PageRank
