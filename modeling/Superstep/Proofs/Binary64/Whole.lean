import Superstep.Proofs.Binary64.Exact

/-!
# Whole numbers

A whole number below `2 ^ 53` is the value of a word, and so is the sum of two of them as long as it
stays below. A sum of counts is therefore the count of their sum, whatever the order, and nothing is
lost by counting in natural numbers instead.

## Main results

* `exists_ofNat_eq`: the word of a whole number
* `add_ofNat`: sums of whole numbers are exact
-/

namespace Superstep.Binary64

/-- Every number of at most fifty-three digits is the value of a magnitude. -/
theorem exists_units_eq {n : Nat} (h : n < 2 ^ 53) :
    ∃ m < infinityMagnitude, units m = n <<< 1074 := by
  obtain rfl | hpos := Nat.eq_zero_or_pos n
  · exact ⟨0, by decide, by rw [Nat.zero_shiftLeft]; rfl⟩
  · -- the leading digit is moved to its place in the significand
    have hne : n ≠ 0 := Nat.ne_of_gt hpos
    have hlog : n.log2 < 53 := (Nat.log2_lt hne).2 h
    obtain ⟨hlow, hhigh⟩ := (Nat.log2_eq_iff hne).1 rfl
    generalize n.log2 = k at hlog hlow hhigh
    have hshift := Nat.two_pow_pos (52 - k)
    have hmin : 2 ^ 52 ≤ n * 2 ^ (52 - k) := by
      calc 2 ^ 52 = 2 ^ k * 2 ^ (52 - k) := by rw [← Nat.pow_add]; congr 1; omega
        _ ≤ n * 2 ^ (52 - k) := Nat.mul_le_mul_right _ hlow
    have hmax : n * 2 ^ (52 - k) < 2 ^ 53 := by
      calc n * 2 ^ (52 - k) < 2 ^ (k + 1) * 2 ^ (52 - k) := Nat.mul_lt_mul_of_pos_right hhigh hshift
        _ = 2 ^ 53 := by rw [← Nat.pow_add]; congr 1; omega
    have hfraction : n * 2 ^ (52 - k) - 2 ^ 52 < 0x10000000000000 := by omega
    have hsignificand : 0x10000000000000 + (n * 2 ^ (52 - k) - 2 ^ 52) = n * 2 ^ (52 - k) := by
      omega
    have hexponent : 52 - k + (1022 + k) = 1074 := by omega
    refine ⟨(1022 + k + 1) * 0x10000000000000 + (n * 2 ^ (52 - k) - 2 ^ 52), ?_, ?_⟩
    · rw [infinityMagnitude]
      omega
    · rw [units_of_parts hfraction, hsignificand, Nat.mul_assoc, ← Nat.pow_add, hexponent,
        Nat.shiftLeft_eq]

/-- **The word of a whole number.** -/
theorem exists_ofNat_eq {n : Nat} (h : n < 2 ^ 53) :
    ∃ m < infinityMagnitude, ofNat n = ofParts false m ∧ units m = n <<< 1074 := by
  obtain ⟨m, hm, hunits⟩ := exists_units_eq h
  refine ⟨m, hm, ?_, hunits⟩
  rw [ofNat, round, ← hunits, nearest_units (Nat.le_of_lt hm)]

/-- The word is finite and stands for a whole number. -/
structure IsWhole (x : Binary64) (n : Nat) : Prop where
  finite : x.isFinite = true
  signedUnits : x.signedUnits = ((n <<< 1074 : Nat) : Int)

theorem isWhole_ofNat {n : Nat} (h : n < 2 ^ 53) :
    IsWhole (ofNat n) n ∧ (ofNat n).isNegative = false := by
  obtain ⟨m, hm, hword, hunits⟩ := exists_ofNat_eq h
  have hle : m ≤ infinityMagnitude := Nat.le_of_lt hm
  rw [hword]
  refine ⟨⟨?_, ?_⟩, isNegative_ofParts hle⟩
  · rw [isFinite, magnitude_ofParts hle]
    exact decide_eq_true hm
  · rw [signedUnits, isNegative_ofParts hle, magnitude_ofParts hle, if_neg Bool.false_ne_true,
      hunits]

theorem isWhole_signedZero : IsWhole (signedZero true) 0 :=
  ⟨by decide, by rw [Nat.zero_shiftLeft]; decide⟩

/-- **Sums of whole numbers are exact**, also when the first is the negative zero. -/
theorem add_ofNat {x : Binary64} {a b : Nat} (hx : IsWhole x a) (hb : b < 2 ^ 53) :
    x + (b : Binary64) = ((a + b : Nat) : Binary64) := by
  obtain ⟨hwhole, hsign⟩ := isWhole_ofNat hb
  show x + ofNat b = ofNat (a + b)
  have hsum : x.signedUnits + (ofNat b).signedUnits = (((a + b) <<< 1074 : Nat) : Int) := by
    rw [hx.signedUnits, hwhole.signedUnits, ← Int.natCast_add]
    simp only [Nat.shiftLeft_eq, Nat.add_mul]
  rw [add_of_finite hx.finite hwhole.finite, addFinite, hsum, hsign, Bool.and_false, ofNat]
  by_cases hzero : (a + b) <<< 1074 = 0
  · rw [hzero]
    rfl
  · have hne : (((a + b) <<< 1074 : Nat) : Int) ≠ 0 := Int.natCast_ne_zero.2 hzero
    have hnonneg : ¬ (((a + b) <<< 1074 : Nat) : Int) < 0 := by omega
    rw [if_neg hne, decide_eq_false hnonneg, Int.natAbs_natCast]

/-- Adding counts one after the other. -/
theorem foldl_add_ofNat {x : Binary64} {a : Nat} (hx : IsWhole x a) {counts : List Nat}
    (h : a + counts.foldr (· + ·) 0 < 2 ^ 53) (hne : counts ≠ []) :
    (counts.map (Nat.cast : Nat → Binary64)).foldl (· + ·) x =
      ((a + counts.foldr (· + ·) 0 : Nat) : Binary64) := by
  induction counts generalizing x a with
  | nil => exact absurd rfl hne
  | cons count rest ih =>
    rw [List.foldr_cons] at h
    rw [List.map_cons, List.foldl_cons, add_ofNat hx (by omega), List.foldr_cons, ← Nat.add_assoc]
    by_cases hrest : rest = []
    · subst hrest
      rfl
    · exact ih (isWhole_ofNat (by omega)).1 (by omega) hrest

/-- A whole number is zero as a word if it is zero. -/
theorem sameValue_ofNat_zero {n : Nat} (h : n < 2 ^ 53) :
    sameValue (n : Binary64) 0 = decide (n = 0) := by
  obtain ⟨m, hm, hword, hunits⟩ := exists_ofNat_eq h
  have hle : m ≤ infinityMagnitude := Nat.le_of_lt hm
  have hzero : (0 : Binary64).isNaN = false ∧ (0 : Binary64).valueKey = 0 := by decide
  have hnan : (ofParts false m).isNaN = false := by
    rw [isNaN, magnitude_ofParts hle]
    exact decide_eq_false (Nat.not_lt.2 hle)
  have hkey : (ofParts false m).valueKey = (m : Int) := by
    rw [valueKey, isNegative_ofParts hle, magnitude_ofParts hle, if_neg Bool.false_ne_true]
  have hiff : m = 0 ↔ n = 0 := by
    constructor
    · rintro rfl
      exact Nat.shiftLeft_eq_zero_iff.1 hunits.symm
    · rintro rfl
      rw [Nat.zero_shiftLeft] at hunits
      exact Nat.eq_zero_of_not_pos fun hpos => Nat.ne_of_gt (units_pos hpos) hunits
  show sameValue (ofNat n) 0 = _
  rw [hword, sameValue, hnan, hzero.1, hkey, hzero.2, Bool.not_false, Bool.true_and, Bool.true_and,
    Bool.eq_iff_iff, beq_iff_eq, decide_eq_true_iff, Int.natCast_eq_zero, hiff]

end Superstep.Binary64
