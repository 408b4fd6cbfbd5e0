import Mathlib.Algebra.Order.Field.Basic
import Mathlib.Data.Rat.Cast.Order
import Mathlib.Tactic.FieldSimp
import Mathlib.Tactic.Linarith
import Mathlib.Tactic.Ring
import Superstep.Binary64.Shortest
import Superstep.Proofs.Binary64.Exact

/-!
# The numbers that round to a magnitude

A magnitude owns the rationals between the midpoints to its two neighbours, and the midpoints
themselves if its last bit is clear. `nearest` gives the magnitude back for each of them.

Below `2 ^ 53` units neighbours are one unit apart, and rounding to the magnitude is rounding to a
natural number. Above, it is rounding to a multiple of a power of two, which depends on the binade
of the ratio and not of the magnitude. The two binades are the same except just below a power of
two, where the ratio counts in steps half as long and rounds up to the power of two.

## Main definitions

* `Owns`: the rationals that round to a magnitude, in units

## Main results

* `nearest_of_owns`: what a magnitude owns is nearest to it
-/

namespace Superstep.Binary64

/-- The rationals that round to the magnitude `m`, in units. -/
structure Owns (m : Nat) (v : ℚ) : Prop where
  low : (units (m - 1) + units m : ℚ) ≤ 2 * v
  high : 2 * v ≤ (units m + units (m + 1) : ℚ)
  /-- The midpoints belong to the even neighbour. -/
  strict : m % 2 = 1 →
    (units (m - 1) + units m : ℚ) < 2 * v ∧ 2 * v < (units m + units (m + 1) : ℚ)

/-! ### Rounding to a natural number -/

/-- A ratio within half of `n` rounds to `n`; at exactly one half, if `n` is even. -/
theorem roundHalfEven_eq {num den n : Nat} (hd : 0 < den) (low : 2 * n * den ≤ 2 * num + den)
    (high : 2 * num ≤ (2 * n + 1) * den)
    (strict : n % 2 = 1 → 2 * n * den < 2 * num + den ∧ 2 * num < (2 * n + 1) * den) :
    roundHalfEven num den = n := by
  have hsplit := Nat.div_add_mod num den
  have hr := Nat.mod_lt num hd
  generalize hq : num / den = q at hsplit
  generalize hm : num % den = r at hsplit hr
  have hle : q ≤ n := by
    by_contra hlt
    have : (n + 1) * den ≤ q * den := Nat.mul_le_mul_right den (by omega)
    nlinarith
  have hge : n ≤ q + 1 := by
    by_contra hlt
    have : (q + 2) * den ≤ n * den := Nat.mul_le_mul_right den (by omega)
    nlinarith
  simp only [roundHalfEven, hq, hm]
  rcases Nat.eq_or_lt_of_le hle with rfl | hlt
  · -- rounded down
    have hhalf : 2 * r ≤ den := by nlinarith
    have htie : q % 2 = 1 → 2 * r < den := fun hodd => by nlinarith [strict hodd]
    split_ifs <;> omega
  · obtain rfl : n = q + 1 := by omega
    have hhalf : den ≤ 2 * r := by nlinarith
    have htie : (q + 1) % 2 = 1 → den < 2 * r := fun hodd => by nlinarith [strict hodd]
    split_ifs <;> omega

/-! ### Units of neighbours -/

theorem units_of_le {m : Nat} (h : m ≤ 0x20000000000000) : units m = m := by
  obtain hm | ⟨e, f, hf, rfl⟩ := lt_or_exists_parts m
  · exact units_of_lt hm
  · rw [units_of_parts hf]
    obtain rfl | ⟨rfl, rfl⟩ : e = 0 ∨ e = 1 ∧ f = 0 := by omega
    · omega
    · rfl

section Neighbours

variable {e f : Nat} (hf : f < 0x10000000000000)
include hf

/-- The next magnitude above is one step of the binade away. -/
theorem units_succ_of_parts :
    units ((e + 1) * 0x10000000000000 + f + 1) = (0x10000000000000 + f + 1) * 2 ^ e := by
  rcases Nat.lt_or_ge (f + 1) 0x10000000000000 with h | h
  · rw [Nat.add_assoc, units_of_parts h, Nat.add_assoc]
  · obtain rfl : f = 0xFFFFFFFFFFFFF := by omega
    have hnext : (e + 1) * 0x10000000000000 + 0xFFFFFFFFFFFFF + 1 =
        (e + 1 + 1) * 0x10000000000000 + 0 := by omega
    rw [hnext, units_of_parts (by omega), Nat.pow_succ]
    ring

omit hf in
/-- The magnitude below a power of two is half a step of the upper binade away. -/
theorem units_pred_of_parts_zero :
    units ((e + 1 + 1) * 0x10000000000000 - 1) = 0x1FFFFFFFFFFFFF * 2 ^ e := by
  have hprev : (e + 1 + 1) * 0x10000000000000 - 1 =
      (e + 1) * 0x10000000000000 + 0xFFFFFFFFFFFFF := by omega
  rw [hprev, units_of_parts (by omega)]

/-- Within a binade the magnitude below is one step away. -/
theorem units_pred_of_parts (hpos : 0 < f) :
    units ((e + 1) * 0x10000000000000 + f - 1) = (0x10000000000000 + f - 1) * 2 ^ e := by
  have hprev : (e + 1) * 0x10000000000000 + f - 1 = (e + 1) * 0x10000000000000 + (f - 1) := by
    omega
  rw [hprev, units_of_parts (by omega)]
  congr 1
  omega

end Neighbours

/-! ### Rounding to a magnitude -/

/-- Rounding in a binade whose neighbours are `2 ^ s` units apart. -/
theorem nearest_of_log2 {num den s n : Nat} (hlog : (num / den).log2 - 52 = s)
    (hround : roundHalfEven num (den * 2 ^ s) = n)
    (hle : s * 0x10000000000000 + n ≤ infinityMagnitude) :
    nearest num den = s * 0x10000000000000 + n := by
  rw [nearest, hlog, Nat.shiftLeft_eq, hround]
  exact Nat.min_eq_left hle

theorem log2_div_eq {num den k : Nat} (hd : 0 < den) (low : 2 ^ k * den ≤ num)
    (high : num < 2 ^ (k + 1) * den) : (num / den).log2 = k := by
  have hle : 2 ^ k ≤ num / den := (Nat.le_div_iff_mul_le hd).2 low
  have hlt : num / den < 2 ^ (k + 1) := (Nat.div_lt_iff_lt_mul hd).2 high
  have hne : num / den ≠ 0 := Nat.ne_of_gt (Nat.lt_of_lt_of_le (Nat.two_pow_pos k) hle)
  exact (Nat.log2_eq_iff hne).2 ⟨hle, hlt⟩

/-- What a magnitude owns, in natural numbers. -/
structure OwnsRatio (m num den : Nat) : Prop where
  low : (units (m - 1) + units m) * den ≤ 2 * num
  high : 2 * num ≤ (units m + units (m + 1)) * den
  strict : m % 2 = 1 →
    (units (m - 1) + units m) * den < 2 * num ∧ 2 * num < (units m + units (m + 1)) * den

/-- Below `2 ^ 53` units, where neighbours are one unit apart. -/
theorem nearest_of_lt {m num den : Nat} (hd : 0 < den) (hpos : 0 < m) (hm : m < 0x20000000000000)
    (h : OwnsRatio m num den) : nearest num den = m := by
  obtain ⟨low, high, strict⟩ := h
  have hpred : units (m - 1) = m - 1 := units_of_le (by omega)
  have hself : units m = m := units_of_le (Nat.le_of_lt hm)
  have hsucc : units (m + 1) = m + 1 := units_of_le (by omega)
  simp only [hpred, hself, hsucc] at low high strict
  have hsum : m - 1 + m + 1 = 2 * m := by omega
  have hlow : (m - 1 + m) * den + den = 2 * m * den := by rw [← hsum]; ring
  have hhigh : (m + (m + 1)) * den = (2 * m + 1) * den := by ring
  have hlog : (num / den).log2 - 52 = 0 := by
    have hle : num / den < m + 1 := by
      rw [Nat.div_lt_iff_lt_mul hd]
      nlinarith
    by_cases hzero : num / den = 0
    · rw [hzero]
      rfl
    · have : (num / den).log2 < 53 := (Nat.log2_lt hzero).2 (by omega)
      omega
  have hround : roundHalfEven num (den * 2 ^ 0) = m := by
    rw [Nat.pow_zero, Nat.mul_one]
    exact roundHalfEven_eq hd (by omega) (by omega) fun hodd => by
      have := strict hodd
      omega
  have h := nearest_of_log2 hlog hround (by rw [infinityMagnitude]; omega)
  omega

section Normal

variable {num den e f : Nat} (hd : 0 < den) (hf : f < 0x10000000000000)
  (hfin : (e + 1 + 1) * 0x10000000000000 + f < infinityMagnitude)
  (h : OwnsRatio ((e + 1 + 1) * 0x10000000000000 + f) num den)
include hd hf hfin h

/-- A ratio in the binade of its magnitude. -/
theorem nearest_of_parts (hin : 0x10000000000000 * (den * 2 ^ (e + 1)) ≤ num) :
    nearest num den = (e + 1 + 1) * 0x10000000000000 + f := by
  obtain ⟨low, high, strict⟩ := h
  have hstep : 0 < den * 2 ^ (e + 1) := Nat.mul_pos hd (Nat.two_pow_pos _)
  rw [units_of_parts hf] at low high strict
  rw [units_succ_of_parts hf] at high strict
  have htop : ((0x10000000000000 + f) * 2 ^ (e + 1) + (0x10000000000000 + f + 1) * 2 ^ (e + 1)) *
      den = (2 * (0x10000000000000 + f) + 1) * (den * 2 ^ (e + 1)) := by ring
  -- the lower end of what is owned, as far as it lies in the binade
  have hbottom : 0 < f → (units ((e + 1 + 1) * 0x10000000000000 + f - 1) +
      (0x10000000000000 + f) * 2 ^ (e + 1)) * den + den * 2 ^ (e + 1) =
        2 * (0x10000000000000 + f) * (den * 2 ^ (e + 1)) := by
    intro hpos
    rw [units_pred_of_parts hf hpos]
    obtain ⟨f, rfl⟩ : ∃ f', f = f' + 1 := ⟨f - 1, by omega⟩
    have : 0x10000000000000 + (f + 1) - 1 = 0x10000000000000 + f := by omega
    rw [this]
    ring
  have hlow52 : 2 ^ (52 + (e + 1)) * den = 0x10000000000000 * (den * 2 ^ (e + 1)) := by
    rw [Nat.pow_add]
    ring
  have hlow53 : 2 ^ (52 + (e + 1) + 1) * den = 0x20000000000000 * (den * 2 ^ (e + 1)) := by
    rw [Nat.pow_succ, Nat.pow_add]
    ring
  have hbelow : (2 * (0x10000000000000 + f) + 1) * (den * 2 ^ (e + 1)) ≤
      0x3FFFFFFFFFFFFF * (den * 2 ^ (e + 1)) := Nat.mul_le_mul_right _ (by omega)
  have hlog : (num / den).log2 = 52 + (e + 1) := by
    refine log2_div_eq hd ?_ ?_
    · rwa [hlow52]
    · rw [hlow53]
      omega
  have hround : roundHalfEven num (den * 2 ^ (e + 1)) = 0x10000000000000 + f := by
    refine roundHalfEven_eq hstep ?_ (by omega) fun hodd => ?_
    · rcases Nat.eq_zero_or_pos f with rfl | hpos
      · omega
      · have := hbottom hpos
        omega
    · have hpos : 0 < f := by omega
      have hends := strict (by omega)
      have := hbottom hpos
      omega
  rw [nearest_of_log2 (s := e + 1) (by omega) hround (by omega)]
  ring

end Normal

/-- A ratio just below the power of two that is nearest to it. -/
theorem nearest_of_lt_parts {num den e : Nat} (hd : 0 < den)
    (hfin : (e + 1 + 1) * 0x10000000000000 < infinityMagnitude)
    (h : OwnsRatio ((e + 1 + 1) * 0x10000000000000) num den)
    (hout : num < 0x10000000000000 * (den * 2 ^ (e + 1))) :
    nearest num den = (e + 1 + 1) * 0x10000000000000 := by
  obtain ⟨low, -, -⟩ := h
  have hself : units ((e + 1 + 1) * 0x10000000000000) = 0x10000000000000 * 2 ^ (e + 1) := by
    have hparts := units_of_parts (e := e + 1) (f := 0) (by omega)
    rwa [Nat.add_zero, Nat.add_zero] at hparts
  rw [units_pred_of_parts_zero, hself] at low
  have hstep : 0 < den * 2 ^ e := Nat.mul_pos hd (Nat.two_pow_pos _)
  have hbottom : (0x1FFFFFFFFFFFFF * 2 ^ e + 0x10000000000000 * 2 ^ (e + 1)) * den =
      0x3FFFFFFFFFFFFF * (den * 2 ^ e) := by
    rw [Nat.pow_succ]
    ring
  have htop : 0x10000000000000 * (den * 2 ^ (e + 1)) = 0x20000000000000 * (den * 2 ^ e) := by
    rw [Nat.pow_succ]
    ring
  have hlow52 : 2 ^ (52 + e) * den = 0x10000000000000 * (den * 2 ^ e) := by
    rw [Nat.pow_add]
    ring
  have hlow53 : 2 ^ (52 + e + 1) * den = 0x20000000000000 * (den * 2 ^ e) := by
    rw [Nat.pow_succ, Nat.pow_add]
    ring
  have hlog : (num / den).log2 = 52 + e := by
    refine log2_div_eq hd ?_ ?_
    · rw [hlow52]
      omega
    · rw [hlow53]
      omega
  have hround : roundHalfEven num (den * 2 ^ e) = 0x20000000000000 := by
    refine roundHalfEven_eq hstep (by omega) (by omega) fun hodd => ?_
    omega
  rw [nearest_of_log2 (s := e) (by omega) hround (by omega)]
  ring

/-- What a magnitude owns is nearest to it. -/
theorem nearest_of_ownsRatio {m num den : Nat} (hd : 0 < den) (hpos : 0 < m)
    (hfin : m < infinityMagnitude) (h : OwnsRatio m num den) : nearest num den = m := by
  rcases Nat.lt_or_ge m 0x20000000000000 with hm | hm
  · exact nearest_of_lt hd hpos hm h
  · obtain ⟨e, f, hf, rfl⟩ : ∃ e f, f < 0x10000000000000 ∧
        m = (e + 1 + 1) * 0x10000000000000 + f :=
      ⟨m / 0x10000000000000 - 2, m % 0x10000000000000, by omega, by omega⟩
    by_cases hin : 0x10000000000000 * (den * 2 ^ (e + 1)) ≤ num
    · exact nearest_of_parts hd hf hfin h hin
    · rcases Nat.eq_zero_or_pos f with rfl | hf0
      · rw [Nat.add_zero] at hfin h ⊢
        exact nearest_of_lt_parts hd hfin h (Nat.lt_of_not_le hin)
      · -- above the power of two, everything that is owned lies in the binade
        exfalso
        have low := h.low
        rw [units_pred_of_parts hf hf0, units_of_parts hf] at low
        refine hin (Nat.le_of_mul_le_mul_left ?_ (Nat.zero_lt_two))
        refine Nat.le_trans ?_ low
        have hle : 2 * 0x10000000000000 ≤ (0x10000000000000 + f - 1) + (0x10000000000000 + f) := by
          omega
        calc 2 * (0x10000000000000 * (den * 2 ^ (e + 1)))
            = 2 * 0x10000000000000 * (2 ^ (e + 1) * den) := by ring
          _ ≤ ((0x10000000000000 + f - 1) + (0x10000000000000 + f)) * (2 ^ (e + 1) * den) :=
            Nat.mul_le_mul_right _ hle
          _ = ((0x10000000000000 + f - 1) * 2 ^ (e + 1) +
                (0x10000000000000 + f) * 2 ^ (e + 1)) * den := by ring

/-- **What a magnitude owns is nearest to it.** -/
theorem nearest_of_owns {m num den : Nat} (hd : 0 < den) (hpos : 0 < m)
    (hfin : m < infinityMagnitude) (h : Owns m ((num : ℚ) / den)) : nearest num den = m := by
  have hdq : (0 : ℚ) < den := by exact_mod_cast hd
  have hdouble : 2 * ((num : ℚ) / den) = ((2 * num : ℕ) : ℚ) / den := by
    push_cast
    ring
  obtain ⟨low, high, strict⟩ := h
  rw [hdouble] at low high strict
  rw [le_div_iff₀ hdq] at low
  rw [div_le_iff₀ hdq] at high
  rw [lt_div_iff₀ hdq, div_lt_iff₀ hdq] at strict
  exact nearest_of_ownsRatio hd hpos hfin
    ⟨by exact_mod_cast low, by exact_mod_cast high, fun hodd => by exact_mod_cast strict hodd⟩

end Superstep.Binary64
