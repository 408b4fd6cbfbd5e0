import Mathlib.Algebra.Order.Field.Power
import Superstep.Binary64.Decimal
import Superstep.Proofs.Binary64.Nearest

/-!
# The shortest decimal reads back

The decimal that `shortest` finds is one of those that the magnitude owns, so the number nearest to
it is the number that it was found for. Two things stand in between.

The search has to end. The step of its last grid is at most half the distance from the magnitude to
its lower neighbour, so the last point of the grid that is not above the magnitude lies in what it
owns. The exponent of the grid is estimated from the binary logarithm, with `30103 / 100000` for the
logarithm of two; how good that is says a comparison of two powers.

Reading has cutoffs. What is beyond them is owned by no finite magnitude, however it is written.

## Main results

* `owns_shortest`: the shortest decimal is owned
* `ofDecimal_of_owns`: a decimal is read as the magnitude that owns it
-/

namespace Superstep.Binary64

/-- The value of a decimal, in units. -/
def decimalUnits (digits : Nat) (exponent : Int) : ℚ :=
  digits * (10 : ℚ) ^ exponent * unitsOfOne

/-! ### Bounds on units -/

theorem units_lt_succ (m : Nat) : units m < units (m + 1) := by
  obtain hm | ⟨e, f, hf, rfl⟩ := lt_or_exists_parts m
  · rw [units_of_le (by omega), units_of_le (by omega)]
    omega
  · rw [units_of_parts hf, units_succ_of_parts hf]
    exact Nat.mul_lt_mul_of_pos_right (by omega) (Nat.two_pow_pos e)

/-- The infinite magnitude stands for `2 ^ 1024`. -/
theorem units_le_of_le_infinity {m : Nat} (h : m ≤ infinityMagnitude) :
    units m ≤ 2 ^ 1024 * unitsOfOne := by
  have hmax : 2 ^ 1024 * unitsOfOne = 2 ^ 52 * 2 ^ 2046 := by decide +kernel
  rw [infinityMagnitude] at h
  obtain hm | ⟨e, f, hf, rfl⟩ := lt_or_exists_parts m
  · rw [units_of_lt hm]
    exact Nat.le_trans (Nat.le_of_lt hm) (by decide +kernel)
  · obtain ⟨k, hk⟩ : ∃ k, 2046 = e + k := ⟨2046 - e, by omega⟩
    rw [units_of_parts hf, hmax, hk, Nat.pow_add]
    rcases Nat.eq_zero_or_pos k with rfl | hpos
    · rw [Nat.pow_zero, Nat.mul_one]
      exact Nat.mul_le_mul_right _ (by omega)
    · have hdouble : 2 ≤ 2 ^ k := Nat.le_self_pow (Nat.ne_of_gt hpos) 2
      calc (0x10000000000000 + f) * 2 ^ e ≤ 2 ^ 52 * 2 * 2 ^ e :=
            Nat.mul_le_mul_right _ (by omega)
        _ = 2 ^ 52 * (2 ^ e * 2) := by ring
        _ ≤ 2 ^ 52 * (2 ^ e * 2 ^ k) :=
            Nat.mul_le_mul_left _ (Nat.mul_le_mul_left _ hdouble)

/-- A magnitude is at most `2 ^ 53` times its distance to the one below. -/
theorem units_add_le {m : Nat} (h : 0 < m) :
    units m + 2 ^ 53 * units (m - 1) ≤ 2 ^ 53 * units m := by
  rcases Nat.lt_or_ge m 0x20000000000000 with hm | hm
  · rw [units_of_le (Nat.le_of_lt hm), units_of_le (by omega)]
    omega
  · obtain ⟨e, f, hf, rfl⟩ : ∃ e f, f < 0x10000000000000 ∧
        m = (e + 1 + 1) * 0x10000000000000 + f :=
      ⟨m / 0x10000000000000 - 2, m % 0x10000000000000, by omega, by omega⟩
    rw [units_of_parts hf]
    rcases Nat.eq_zero_or_pos f with rfl | hpos
    · simp only [Nat.add_zero]
      rw [units_pred_of_parts_zero, Nat.pow_succ]
      generalize 2 ^ e = step
      omega
    · rw [units_pred_of_parts hf hpos]
      obtain ⟨f, rfl⟩ : ∃ f', f = f' + 1 := ⟨f - 1, by omega⟩
      have hpred : 0x10000000000000 + (f + 1) - 1 = 0x10000000000000 + f := by omega
      rw [hpred]
      have hstep : (0x10000000000000 + (f + 1)) * 2 ^ (e + 1) ≤ 2 ^ 53 * 2 ^ (e + 1) :=
        Nat.mul_le_mul_right _ (by omega)
      calc (0x10000000000000 + (f + 1)) * 2 ^ (e + 1) +
            2 ^ 53 * ((0x10000000000000 + f) * 2 ^ (e + 1))
          ≤ 2 ^ 53 * 2 ^ (e + 1) + 2 ^ 53 * ((0x10000000000000 + f) * 2 ^ (e + 1)) :=
            Nat.add_le_add_right hstep _
        _ = 2 ^ 53 * ((0x10000000000000 + (f + 1)) * 2 ^ (e + 1)) := by ring

/-! ### Powers of ten and of two -/

theorem two_pow_le_ten_pow : 2 ^ 100000 ≤ 10 ^ 30103 := by decide +kernel

theorem ten_pow_le_two_pow : 10 ^ 30103 ≤ 2 ^ 100001 := by decide +kernel

/-- The estimate of a decimal exponent from a binary one does not overshoot by much. -/
theorem ten_zpow_le_two_zpow {t : Int} (h : t ≤ 100000) :
    (10 : ℚ) ^ (t * 30103 / 100000) ≤ 2 ^ (t + 1) := by
  have hfloor : t * 30103 / 100000 * 100000 ≤ t * 30103 := Int.ediv_mul_le _ (by decide)
  have hlower : ((2 : ℚ) ^ 100000) ≤ 10 ^ 30103 := by exact_mod_cast two_pow_le_ten_pow
  have hupper : ((10 : ℚ) ^ 30103) ≤ 2 ^ 100001 := by exact_mod_cast ten_pow_le_two_pow
  generalize t * 30103 / 100000 = c at hfloor ⊢
  refine le_of_pow_le_pow_left₀ (n := 100000) (by decide) (by positivity) ?_
  calc ((10 : ℚ) ^ c) ^ 100000 = 10 ^ (c * 100000) := by
        rw [zpow_mul]
        rfl
    _ ≤ 10 ^ (t * 30103) := zpow_le_zpow_right₀ (by norm_num) hfloor
    _ = ((10 : ℚ) ^ 30103) ^ t := by
        rw [mul_comm, zpow_mul]
        rfl
    _ ≤ 2 ^ ((t + 1) * 100000) := ?_
    _ = ((2 : ℚ) ^ (t + 1)) ^ 100000 := by
        rw [zpow_mul]
        rfl
  rcases Int.le_total 0 t with hpos | hneg
  · obtain ⟨n, rfl⟩ := Int.eq_ofNat_of_zero_le hpos
    calc ((10 : ℚ) ^ 30103) ^ (n : Int) ≤ ((2 : ℚ) ^ 100001) ^ (n : Int) :=
          zpow_le_zpow_left₀ hpos (by positivity) hupper
      _ = 2 ^ (100001 * (n : Int)) := by
          rw [zpow_mul]
          rfl
      _ ≤ 2 ^ (((n : Int) + 1) * 100000) := zpow_le_zpow_right₀ (by norm_num) (by omega)
  · obtain ⟨n, rfl⟩ := Int.exists_eq_neg_ofNat hneg
    calc ((10 : ℚ) ^ 30103) ^ (-(n : Int)) ≤ ((2 : ℚ) ^ 100000) ^ (-(n : Int)) := by
          rw [zpow_neg, zpow_neg, zpow_natCast, zpow_natCast]
          exact inv_anti₀ (by positivity) (pow_le_pow_left₀ (by positivity) hlower n)
      _ = 2 ^ (100000 * -(n : Int)) := by
          rw [zpow_mul]
          rfl
      _ ≤ 2 ^ ((-(n : Int) + 1) * 100000) := zpow_le_zpow_right₀ (by norm_num) (by omega)

/-! ### The grids -/

theorem unitsOfOne_eq : unitsOfOne = 2 ^ 1074 := by decide +kernel

theorem unitsOfOne_pos : 0 < unitsOfOne := Nat.pos_of_ne_zero (by decide +kernel)

theorem gridStep_pos (k : Int) : 0 < (gridStep k).1 ∧ 0 < (gridStep k).2 :=
  ⟨Nat.mul_pos unitsOfOne_pos (Nat.pow_pos (by decide)), Nat.pow_pos (by decide)⟩

theorem ten_zpow_eq_div (k : Int) :
    (10 : ℚ) ^ k = ((10 ^ k.toNat : ℕ) : ℚ) / ((10 ^ (-k).toNat : ℕ) : ℚ) := by
  rcases Int.le_total 0 k with hk | hk
  · obtain ⟨n, rfl⟩ := Int.eq_ofNat_of_zero_le hk
    simp
  · obtain ⟨n, rfl⟩ := Int.exists_eq_neg_ofNat hk
    simp

theorem gridStep_eq (k : Int) :
    ((gridStep k).1 : ℚ) / (gridStep k).2 = (10 : ℚ) ^ k * unitsOfOne := by
  rw [ten_zpow_eq_div]
  show ((unitsOfOne * 10 ^ k.toNat : ℕ) : ℚ) / ((10 ^ (-k).toNat : ℕ) : ℚ) = _
  rw [Nat.cast_mul]
  ring

/-- A point of a grid, as a ratio. -/
theorem two_mul_decimalUnits (digits : Nat) (k : Int) :
    2 * decimalUnits digits k = ((2 * digits * (gridStep k).1 : ℕ) : ℚ) / (gridStep k).2 := by
  rw [decimalUnits, mul_assoc (digits : ℚ), ← gridStep_eq]
  push_cast
  ring

theorem ownsDecimal_iff {m : Nat} {k : Int} {digits : Nat} :
    ownsDecimal m k digits = true ↔ Owns m (decimalUnits digits k) := by
  have hden : (0 : ℚ) < (gridStep k).2 := by exact_mod_cast (gridStep_pos k).2
  have hle : ∀ n : Nat, (n : ℚ) ≤ 2 * decimalUnits digits k ↔
      n * (gridStep k).2 ≤ 2 * digits * (gridStep k).1 := by
    intro n
    rw [two_mul_decimalUnits, le_div_iff₀ hden]
    exact_mod_cast Iff.rfl
  have hge : ∀ n : Nat, 2 * decimalUnits digits k ≤ (n : ℚ) ↔
      2 * digits * (gridStep k).1 ≤ n * (gridStep k).2 := by
    intro n
    rw [two_mul_decimalUnits, div_le_iff₀ hden]
    exact_mod_cast Iff.rfl
  have hlow := hle (units (m - 1) + units m)
  have hhigh := hge (units m + units (m + 1))
  have hlow' := not_congr (hge (units (m - 1) + units m))
  have hhigh' := not_congr (hle (units m + units (m + 1)))
  rw [not_le, Nat.not_le] at hlow' hhigh'
  push_cast at hlow hhigh hlow' hhigh'
  simp only [ownsDecimal]
  by_cases heven : m % 2 = 0
  · rw [if_pos heven, Bool.and_eq_true, decide_eq_true_eq, decide_eq_true_eq]
    constructor
    · rintro ⟨hl, hh⟩
      exact ⟨hlow.2 hl, hhigh.2 hh, fun hodd => by omega⟩
    · intro h
      exact ⟨hlow.1 h.low, hhigh.1 h.high⟩
  · rw [if_neg heven, Bool.and_eq_true, decide_eq_true_eq, decide_eq_true_eq]
    constructor
    · rintro ⟨hl, hh⟩
      exact ⟨le_of_lt (hlow'.2 hl), le_of_lt (hhigh'.2 hh), fun _ => ⟨hlow'.2 hl, hhigh'.2 hh⟩⟩
    · intro h
      obtain ⟨hl, hh⟩ := h.strict (by omega)
      exact ⟨hlow'.1 hl, hhigh'.1 hh⟩

/-- What is found on a grid is owned. -/
theorem owns_of_onGrid? {m : Nat} {k : Int} {d : Decimal} (h : onGrid? m k = some d) :
    d.exponent = k ∧ Owns m (decimalUnits d.digits k) := by
  simp only [onGrid?] at h
  split at h
  · cases h
  · rename_i hbelow _
    cases h
    exact ⟨rfl, ownsDecimal_iff.1 hbelow⟩
  · rename_i hbelow habove
    cases h
    exact ⟨rfl, ownsDecimal_iff.1 habove⟩
  · rename_i hbelow habove
    split at h
    · cases h
      exact ⟨rfl, ownsDecimal_iff.1 hbelow⟩
    · cases h
      exact ⟨rfl, ownsDecimal_iff.1 habove⟩

/-- A grid whose steps are at most half the distance to the lower neighbour has a point that is
owned: the last that is not above the magnitude. -/
theorem exists_onGrid? {m : Nat} {k : Int}
    (hstep : 2 * ((10 : ℚ) ^ k * unitsOfOne) ≤ (units m : ℚ) - units (m - 1)) :
    (onGrid? m k).isSome := by
  have hnum : (0 : ℚ) < (gridStep k).1 := by exact_mod_cast (gridStep_pos k).1
  have hden : (0 : ℚ) < (gridStep k).2 := by exact_mod_cast (gridStep_pos k).2
  have hsucc : (units m : ℚ) < units (m + 1) := by exact_mod_cast units_lt_succ m
  -- the point itself, and the one after it
  have hbelow : decimalUnits (units m * (gridStep k).2 / (gridStep k).1) k ≤ units m := by
    rw [decimalUnits, mul_assoc, ← gridStep_eq, ← mul_div_assoc, div_le_iff₀ hden]
    exact_mod_cast Nat.div_mul_le_self _ _
  have habove : (units m : ℚ) < decimalUnits (units m * (gridStep k).2 / (gridStep k).1) k +
      (10 : ℚ) ^ k * unitsOfOne := by
    rw [decimalUnits, mul_assoc, ← gridStep_eq, ← add_one_mul, ← mul_div_assoc, lt_div_iff₀ hden]
    have hlt := Nat.lt_mul_div_succ (units m * (gridStep k).2) (gridStep_pos k).1
    rw [Nat.mul_comm (gridStep k).1] at hlt
    exact_mod_cast hlt
  have howns : Owns m (decimalUnits (units m * (gridStep k).2 / (gridStep k).1) k) := by
    refine ⟨?_, ?_, fun _ => ⟨?_, ?_⟩⟩ <;> linarith
  have hfound := ownsDecimal_iff.2 howns
  simp only [onGrid?, hfound]
  split
  · simp_all
  · rfl
  · simp_all
  · split <;> rfl

/-! ### The search -/

section Search

variable {m : Nat} (hm : 0 < m) (hfin : m < infinityMagnitude)
include hm hfin

theorem log2_units_le : (units m).log2 ≤ 2098 := by
  have hne : units m ≠ 0 := Nat.ne_of_gt (units_pos hm)
  obtain ⟨bound, hbound, hmax⟩ : ∃ bound ≤ 2098, 2 ^ 1024 * unitsOfOne = 2 ^ bound :=
    ⟨2098, Nat.le_refl _, by decide +kernel⟩
  have hle := units_le_of_le_infinity (Nat.le_of_lt hfin)
  rw [hmax] at hle
  have hpow := Nat.le_trans (Nat.log2_self_le hne) hle
  exact Nat.le_trans ((Nat.pow_le_pow_iff_right Nat.one_lt_two).1 hpow) hbound

/-- The last grid is fine enough. -/
theorem lastStep_le : 2 * ((10 : ℚ) ^ (topExponent m - 19) * unitsOfOne) ≤
    (units m : ℚ) - units (m - 1) := by
  have hne : units m ≠ 0 := Nat.ne_of_gt (units_pos hm)
  have hlog : (2 : ℚ) ^ ((units m).log2 : Int) ≤ units m := by
    rw [zpow_natCast]
    exact_mod_cast Nat.log2_self_le hne
  have hgap : (units m : ℚ) + 2 ^ 53 * units (m - 1) ≤ 2 ^ 53 * units m := by
    exact_mod_cast units_add_le hm
  have ht : ((units m).log2 : Int) - 1074 ≤ 100000 := by
    have := log2_units_le hm hfin
    omega
  have hone : ((unitsOfOne : ℕ) : ℚ) = 2 ^ (1074 : Int) := by
    rw [unitsOfOne_eq, Nat.cast_pow]
    exact (zpow_natCast _ 1074).symm
  have hexponent : topExponent m - 19 = ((units m).log2 - 1074) * 30103 / 100000 - 18 := by
    rw [topExponent]
    omega
  have hscaled : (10 : ℚ) ^ (topExponent m - 19) * unitsOfOne * 10 ^ 18 ≤ 2 * units m := by
    calc (10 : ℚ) ^ (topExponent m - 19) * unitsOfOne * 10 ^ 18
        = 10 ^ (((units m).log2 - 1074) * 30103 / 100000 : Int) * unitsOfOne := by
          rw [hexponent, zpow_sub₀ (by norm_num), mul_right_comm]
          congr 1
          exact div_mul_cancel₀ _ (by norm_num)
      _ ≤ 2 ^ (((units m).log2 : Int) - 1074 + 1) * unitsOfOne :=
          mul_le_mul_of_nonneg_right (ten_zpow_le_two_zpow ht) (Nat.cast_nonneg _)
      _ = 2 * 2 ^ ((units m).log2 : Int) := by
          rw [hone, ← zpow_add₀ (by norm_num), ← zpow_one_add₀ (by norm_num)]
          congr 1
          omega
      _ ≤ 2 * units m := by linarith
  have hunits : (0 : ℚ) ≤ units m := Nat.cast_nonneg _
  have hmargin : (4 : ℚ) * 2 ^ 53 ≤ 10 ^ 18 := by norm_num
  linarith

theorem exists_shortest : ∃ i ≤ 19, onGrid? m (topExponent m - (i : Nat)) = some (shortest m) := by
  have hlast : (onGrid? m (topExponent m - (19 : Nat))).isSome :=
    exists_onGrid? (lastStep_le hm hfin)
  have hfound : ((List.range 20).findSome? fun (i : Nat) =>
      onGrid? m (topExponent m - i)).isSome := by
    rw [List.findSome?_isSome_iff]
    exact ⟨19, List.mem_range.2 (by decide), hlast⟩
  obtain ⟨d, hd⟩ := Option.isSome_iff_exists.1 hfound
  obtain ⟨i, hi, hgrid⟩ := List.exists_of_findSome?_eq_some hd
  refine ⟨i, Nat.le_of_lt_succ (List.mem_range.1 hi), ?_⟩
  rw [shortest, hd, Option.getD_some]
  exact hgrid

/-- **The shortest decimal is owned.** -/
theorem owns_shortest : Owns m (decimalUnits (shortest m).digits (shortest m).exponent) := by
  obtain ⟨i, -, hgrid⟩ := exists_shortest hm hfin
  obtain ⟨hexponent, howns⟩ := owns_of_onGrid? hgrid
  rwa [hexponent]

theorem le_exponent_shortest : -342 ≤ (shortest m).exponent := by
  obtain ⟨i, hi, hgrid⟩ := exists_shortest hm hfin
  rw [(owns_of_onGrid? hgrid).1, topExponent]
  omega

end Search

/-! ### Reading what is owned -/

section Owned

variable {m digits : Nat} {exponent : Int} (hm : 0 < m) (hfin : m < infinityMagnitude)
  (h : Owns m (decimalUnits digits exponent))

include h hfin in
theorem decimal_le_of_owns : digits * (10 : ℚ) ^ exponent ≤ 2 ^ 1024 := by
  have hone : (0 : ℚ) < unitsOfOne := by exact_mod_cast unitsOfOne_pos
  have hself : (units m : ℚ) ≤ 2 ^ 1024 * unitsOfOne := by
    exact_mod_cast units_le_of_le_infinity (Nat.le_of_lt hfin)
  have hsucc : (units (m + 1) : ℚ) ≤ 2 ^ 1024 * unitsOfOne := by
    exact_mod_cast units_le_of_le_infinity hfin
  have high := h.high
  rw [decimalUnits] at high
  refine le_of_mul_le_mul_right ?_ hone
  generalize (2 : ℚ) ^ 1024 = bound at *
  linarith

include h hm in
theorem one_le_of_owns : 1 ≤ 2 * decimalUnits digits exponent := by
  have hself : (1 : ℚ) ≤ units m := by exact_mod_cast units_pos hm
  have hpred : (0 : ℚ) ≤ units (m - 1) := Nat.cast_nonneg _
  linarith [h.low]

include h hm in
theorem digits_pos_of_owns : 0 < digits := by
  refine Nat.pos_of_ne_zero fun hzero => ?_
  have hone := one_le_of_owns hm h
  rw [decimalUnits, hzero, Nat.cast_zero, zero_mul, zero_mul, mul_zero] at hone
  linarith

include h hm hfin in
/-- Decimals beyond the first cutoff are owned by no finite magnitude. -/
theorem exponent_le_of_owns : exponent ≤ 400 := by
  by_contra hlt
  have hdigits : (1 : ℚ) ≤ digits := by exact_mod_cast digits_pos_of_owns hm h
  have hmax : ((2 : ℚ) ^ 1024) < 10 ^ 400 := by
    exact_mod_cast (by decide +kernel : 2 ^ 1024 < 10 ^ 400)
  have hpow : (10 : ℚ) ^ 400 ≤ 10 ^ exponent := by
    rw [← zpow_natCast]
    exact zpow_le_zpow_right₀ (by norm_num) (by omega)
  have hle := decimal_le_of_owns hfin h
  have hself : (10 : ℚ) ^ exponent ≤ digits * 10 ^ exponent :=
    le_mul_of_one_le_left (by positivity) hdigits
  exact lt_irrefl _ (hmax.trans_le (hpow.trans (hself.trans hle)))

include h hm in
/-- Decimals beyond the second cutoff are less than half a unit. -/
theorem le_exponent_of_owns : -(400 + (digits.log2 : Int)) ≤ exponent := by
  by_contra hlt
  have hone := one_le_of_owns hm h
  have hdigits : (digits : ℚ) ≤ 10 ^ ((digits.log2 : Int) + 1) := by
    have htwo : digits < 2 ^ (digits.log2 + 1) := Nat.lt_log2_self
    have hten : 2 ^ (digits.log2 + 1) ≤ 10 ^ (digits.log2 + 1) :=
      Nat.pow_le_pow_left (by decide) _
    exact_mod_cast Nat.le_trans (Nat.le_of_lt htwo) hten
  have hdecimal : digits * (10 : ℚ) ^ exponent * 10 ^ 400 ≤ 1 := by
    calc digits * (10 : ℚ) ^ exponent * 10 ^ 400
        ≤ 10 ^ ((digits.log2 : Int) + 1) * 10 ^ exponent * 10 ^ 400 := by gcongr
      _ = 10 ^ ((digits.log2 : Int) + 1 + exponent + 400) := by
          rw [← zpow_natCast, ← zpow_add₀ (by norm_num), ← zpow_add₀ (by norm_num)]
          rfl
      _ ≤ 10 ^ (0 : Int) := zpow_le_zpow_right₀ (by norm_num) (by omega)
      _ = 1 := zpow_zero _
  have hunits : (2 : ℚ) * unitsOfOne < 10 ^ 400 := by
    exact_mod_cast (by decide +kernel : 2 * unitsOfOne < 10 ^ 400)
  have hpositive : (0 : ℚ) < digits * 10 ^ exponent := by
    have : (0 : ℚ) < digits := by exact_mod_cast digits_pos_of_owns hm h
    positivity
  have hscaled := mul_lt_mul_of_pos_left hunits hpositive
  rw [decimalUnits] at hone
  generalize (10 : ℚ) ^ 400 = bound at *
  linarith

include h hm hfin in
/-- **A decimal is read as the magnitude that owns it.** -/
theorem ofDecimal_of_owns (negative : Bool) :
    ofDecimal negative digits exponent = ofParts negative m := by
  have hdigits := digits_pos_of_owns hm h
  have hupper := exponent_le_of_owns hm hfin h
  have hlower := le_exponent_of_owns hm h
  rw [ofDecimal, if_neg (by omega), if_neg (by omega), if_neg (by omega), round]
  congr 1
  refine nearest_of_owns (Nat.pow_pos (by decide)) hm hfin ?_
  have hratio : ((digits * Nat.pow 10 exponent.toNat <<< 1074 : ℕ) : ℚ) /
      (Nat.pow 10 (-exponent).toNat : ℕ) = decimalUnits digits exponent := by
    have hshift : ∀ n : Nat, n <<< 1074 = n * unitsOfOne := fun n => by
      rw [Nat.shiftLeft_eq, unitsOfOne, Nat.one_shiftLeft]
    rw [decimalUnits, ten_zpow_eq_div, hshift]
    simp only [Nat.pow_eq, Nat.cast_mul]
    ring
  rwa [hratio]

end Owned

/-- The shortest decimal is far from having too many digits to be read one by one. -/
theorem digits_shortest_lt {m : Nat} (hm : 0 < m) (hfin : m < infinityMagnitude) :
    (shortest m).digits < 10 ^ 700 := by
  have hle := decimal_le_of_owns hfin (owns_shortest hm hfin)
  have hmax : ((2 : ℚ) ^ 1024) * 10 ^ 342 < 10 ^ 700 := by
    exact_mod_cast (by decide +kernel : 2 ^ 1024 * 10 ^ 342 < 10 ^ 700)
  have hone : 1 ≤ (10 : ℚ) ^ (shortest m).exponent * 10 ^ 342 := by
    rw [← zpow_natCast, ← zpow_add₀ (by norm_num)]
    exact one_le_zpow₀ (by norm_num) (by have := le_exponent_shortest hm hfin; omega)
  have hlt : ((shortest m).digits : ℚ) < 10 ^ 700 := by
    calc ((shortest m).digits : ℚ)
        ≤ (shortest m).digits * (10 ^ (shortest m).exponent * 10 ^ 342) :=
          le_mul_of_one_le_right (Nat.cast_nonneg _) hone
      _ = (shortest m).digits * 10 ^ (shortest m).exponent * 10 ^ 342 := (mul_assoc _ _ _).symm
      _ ≤ 2 ^ 1024 * 10 ^ 342 := mul_le_mul_of_nonneg_right hle (by positivity)
      _ < 10 ^ 700 := hmax
  exact_mod_cast hlt

end Superstep.Binary64
