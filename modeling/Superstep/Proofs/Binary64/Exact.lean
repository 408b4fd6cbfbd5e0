import Mathlib.Algebra.Group.Nat.Defs
import Mathlib.Tactic.ByContra
import Mathlib.Tactic.SplitIfs
import Superstep.Binary64.Basic

/-!
# Sums that are exact

Every magnitude is the nearest one to the units that it stands for, so a result that needs no
rounding is not changed by it. Here that is used for sums with zero: adding a number to zero gives
the number back, bit for bit. The exceptions are the negative zero, and a NaN that is not quiet.
Neither of them is the sum of a number that is no exception and another one.

## Main results

* `nearest_units`: a magnitude is nearest to itself
* `zero_add_eq`: a sum with zero
* `zero_add_add`: adding to zero once is as good as adding to zero twice
-/

namespace Superstep.Binary64

theorem roundHalfEven_mul (n : Nat) {den : Nat} (h : 0 < den) :
    roundHalfEven (n * den) den = n := by
  simp [roundHalfEven, Nat.mul_div_cancel n h, h]

theorem units_of_lt {m : Nat} (h : m < 0x10000000000000) : units m = m := by
  rw [units, if_pos (Nat.div_eq_of_lt h)]

section Normal

variable {e f : Nat} (hf : f < 0x10000000000000)
include hf

/-- The units of a magnitude with a positive exponent and a fraction. -/
theorem units_of_parts :
    units ((e + 1) * 0x10000000000000 + f) = (0x10000000000000 + f) * 2 ^ e := by
  have hexponent : ((e + 1) * 0x10000000000000 + f) / 0x10000000000000 = e + 1 := by omega
  have hfraction : ((e + 1) * 0x10000000000000 + f) % 0x10000000000000 = f := by omega
  rw [units, hexponent, hfraction, if_neg (Nat.succ_ne_zero e), Nat.add_sub_cancel,
    Nat.shiftLeft_eq]

theorem log2_units_of_parts : (units ((e + 1) * 0x10000000000000 + f)).log2 = 52 + e := by
  have hlow : 2 ^ 52 ≤ 0x10000000000000 + f := by omega
  have hhigh : 0x10000000000000 + f < 2 ^ 53 := by omega
  have hpos := Nat.two_pow_pos e
  rw [units_of_parts hf]
  refine (Nat.log2_eq_iff (Nat.ne_of_gt (Nat.mul_pos (by omega) hpos))).2 ⟨?_, ?_⟩
  · rw [Nat.pow_add]
    exact Nat.mul_le_mul_right _ hlow
  · rw [Nat.add_right_comm, Nat.pow_add]
    exact Nat.mul_lt_mul_of_pos_right hhigh hpos

theorem nearest_units_of_parts (h : (e + 1) * 0x10000000000000 + f ≤ infinityMagnitude) :
    nearest (units ((e + 1) * 0x10000000000000 + f)) 1 = (e + 1) * 0x10000000000000 + f := by
  have hspread : (units ((e + 1) * 0x10000000000000 + f)).log2 - 52 = e := by
    rw [log2_units_of_parts hf, Nat.add_sub_cancel_left]
  have hround : roundHalfEven (units ((e + 1) * 0x10000000000000 + f)) (2 ^ e) =
      0x10000000000000 + f := by
    rw [units_of_parts hf, roundHalfEven_mul _ (Nat.two_pow_pos e)]
  have hcarry : e * 0x10000000000000 + (0x10000000000000 + f) =
      (e + 1) * 0x10000000000000 + f := by omega
  simp only [nearest, Nat.div_one, hspread, Nat.one_shiftLeft, hround, hcarry]
  exact Nat.min_eq_left h

end Normal

/-- A magnitude is subnormal or has a positive exponent. -/
theorem lt_or_exists_parts (m : Nat) : m < 0x10000000000000 ∨
    ∃ e f, f < 0x10000000000000 ∧ m = (e + 1) * 0x10000000000000 + f := by
  rcases Nat.lt_or_ge m 0x10000000000000 with h | h
  · exact .inl h
  · exact .inr ⟨m / 0x10000000000000 - 1, m % 0x10000000000000, by omega, by omega⟩

theorem units_pos {m : Nat} (h : 0 < m) : 0 < units m := by
  obtain hm | ⟨e, f, hf, rfl⟩ := lt_or_exists_parts m
  · rwa [units_of_lt hm]
  · rw [units_of_parts hf]
    exact Nat.mul_pos (by omega) (Nat.two_pow_pos e)

/-- **A magnitude is nearest to itself.** -/
theorem nearest_units {m : Nat} (h : m ≤ infinityMagnitude) : nearest (units m) 1 = m := by
  obtain hm | ⟨e, f, hf, rfl⟩ := lt_or_exists_parts m
  · have hlog : m.log2 - 52 = 0 := by
      by_cases hzero : m = 0
      · rw [hzero]
        rfl
      · have : m.log2 < 52 := (Nat.log2_lt hzero).2 (by omega)
        omega
    have hround := roundHalfEven_mul m Nat.one_pos
    rw [Nat.mul_one] at hround
    simp [nearest, units_of_lt hm, hlog, hround, h]
  · exact nearest_units_of_parts hf h

/-! ### Words -/

/-- A word is its sign and its magnitude. -/
theorem ofParts_self (x : Binary64) : ofParts x.isNegative x.magnitude = x := by
  have hlt := x.bits.toNat_lt
  have hword : (if x.isNegative then 0x8000000000000000 + x.magnitude else x.magnitude) =
      x.bits.toNat := by
    rw [isNegative, magnitude]
    by_cases hsign : 0x8000000000000000 ≤ x.bits.toNat
    · rw [decide_eq_true hsign, if_pos rfl]
      omega
    · rw [decide_eq_false hsign, if_neg Bool.false_ne_true]
      omega
  rw [ofParts, hword, UInt64.ofNat_toNat]

theorem pos_iff {x : Binary64} :
    0 < x ↔ x.isNaN = false ∧ x.isNegative = false ∧ 0 < x.magnitude := by
  have hkey : (0 : Binary64).valueKey = 0 := by decide
  have hzero : (0 : Binary64).isNaN = false := by decide
  show (_ = false ∧ _ = false ∧ _ < _) ↔ _
  rw [hzero, hkey, valueKey]
  cases x.isNegative <;> simp

theorem lt_of_not_lt_zero {θ x : Binary64} (hθ : ¬ θ < 0) (h : θ < x) : 0 < x := by
  obtain ⟨hθn, hxn, hkey⟩ := h
  have hzero : (0 : Binary64).valueKey = 0 := by decide
  refine ⟨by decide, hxn, ?_⟩
  have : ¬ θ.valueKey < 0 := fun hlt => hθ ⟨hθn, by decide, by rwa [hzero]⟩
  omega

section Parts

variable {negative : Bool} {m : Nat} (h : m ≤ infinityMagnitude)
include h

theorem toNat_bits_ofParts : (ofParts negative m).bits.toNat =
    if negative then 0x8000000000000000 + m else m := by
  rw [infinityMagnitude] at h
  refine UInt64.toNat_ofNat_of_lt' ?_
  rw [UInt64.size]
  cases negative <;> simp <;> omega

theorem isNegative_ofParts : (ofParts negative m).isNegative = negative := by
  rw [isNegative, toNat_bits_ofParts h]
  rw [infinityMagnitude] at h
  cases negative <;> simp
  omega

theorem magnitude_ofParts : (ofParts negative m).magnitude = m := by
  rw [magnitude, toNat_bits_ofParts h]
  rw [infinityMagnitude] at h
  cases negative <;> simp <;> omega

end Parts

/-! ### Sums with zero -/

theorem add_of_finite {x y : Binary64} (hx : x.isFinite = true) (hy : y.isFinite = true) :
    x + y = addFinite x y := by
  rw [isFinite, decide_eq_true_eq] at hx hy
  have hnan : ∀ {z : Binary64}, z.magnitude < infinityMagnitude → z.isNaN = false :=
    fun h => decide_eq_false (Nat.not_lt.2 (Nat.le_of_lt h))
  have hinf : ∀ {z : Binary64}, z.magnitude < infinityMagnitude → z.isInfinite = false :=
    fun h => beq_false_of_ne (Nat.ne_of_lt h)
  show add x y = _
  rw [add, hnan hx, hnan hy, hinf hx, hinf hy]
  rfl

theorem natAbs_signedUnits (x : Binary64) : x.signedUnits.natAbs = units x.magnitude := by
  rw [signedUnits]
  cases x.isNegative <;> simp

theorem signedUnits_eq_zero_iff {x : Binary64} : x.signedUnits = 0 ↔ x.magnitude = 0 := by
  rw [← Int.natAbs_eq_zero, natAbs_signedUnits]
  constructor
  · intro h
    by_contra hne
    exact Nat.ne_of_gt (units_pos (Nat.pos_of_ne_zero hne)) h
  · rintro h
    rw [h]
    rfl

theorem decide_signedUnits_neg {x : Binary64} (h : x.magnitude ≠ 0) :
    decide (x.signedUnits < 0) = x.isNegative := by
  have hpos := units_pos (Nat.pos_of_ne_zero h)
  rw [signedUnits]
  cases x.isNegative
  · simp
  · simp only [if_true, decide_eq_true_eq]
    omega

/-- **A sum with zero.** A NaN becomes quiet, and a zero loses its sign. -/
theorem zero_add_eq (x : Binary64) :
    0 + x = if x.isNaN then x.quiet else if x.isZero then 0 else x := by
  by_cases hnan : x.isNaN = true
  · show add 0 x = _
    rw [add, handOn, hnan, Bool.or_true]
    rfl
  · rw [if_neg hnan]
    by_cases hinf : x.isInfinite = true
    · have hzero : x.isZero = false := by
        rw [isInfinite, beq_iff_eq] at hinf
        rw [isZero, hinf]
        rfl
      show add 0 x = _
      rw [add, hzero]
      simp only [hnan, hinf]
      rfl
    · have hfinite : x.isFinite = true := by
        rw [isNaN, decide_eq_true_eq] at hnan
        rw [isInfinite, beq_iff_eq] at hinf
        exact decide_eq_true (by omega)
      have hsum : (0 : Binary64).signedUnits + x.signedUnits = x.signedUnits :=
        (congrArg (· + x.signedUnits) (by decide : (0 : Binary64).signedUnits = 0)).trans
          (Int.zero_add _)
      rw [add_of_finite (by decide) hfinite, addFinite, hsum]
      by_cases hzero : x.magnitude = 0
      · rw [if_pos (signedUnits_eq_zero_iff.2 hzero), isZero, hzero]
        rfl
      · rw [isFinite, decide_eq_true_eq] at hfinite
        rw [if_neg (mt signedUnits_eq_zero_iff.1 hzero), if_neg (by simpa [isZero] using hzero),
          round, natAbs_signedUnits, nearest_units (Nat.le_of_lt hfinite),
          decide_signedUnits_neg hzero, ofParts_self]

/-- A positive number is not changed when it is added to zero. -/
theorem zero_add_of_pos {x : Binary64} (h : 0 < x) : 0 + x = x := by
  obtain ⟨hnan, -, hpos⟩ := pos_iff.1 h
  rw [zero_add_eq, hnan, isZero, beq_false_of_ne (Nat.ne_of_gt hpos)]
  rfl

theorem isNaN_quiet {x : Binary64} (h : x.isNaN = true) : x.quiet.isNaN = true := by
  rw [isNaN, decide_eq_true_eq, magnitude] at h ⊢
  refine Nat.lt_of_lt_of_le h ?_
  have hmod : x.quiet.bits.toNat % 2 ^ 63 =
      x.bits.toNat % 2 ^ 63 ||| 0x0008000000000000 % 2 ^ 63 := by
    rw [quiet, UInt64.toNat_or, Nat.or_mod_two_pow]
    rfl
  exact Nat.le_trans Nat.left_le_or (Nat.le_of_eq hmod.symm)

theorem quiet_quiet (x : Binary64) : x.quiet.quiet = x.quiet := by
  simp only [quiet, UInt64.or_assoc, UInt64.or_self]

theorem zero_add_quiet {x : Binary64} (h : x.isNaN = true) : 0 + x.quiet = x.quiet := by
  rw [zero_add_eq, if_pos (isNaN_quiet h), quiet_quiet]

theorem nearest_pos {num : Nat} (h : 0 < num) : 0 < nearest num 1 := by
  rw [nearest]
  refine Nat.lt_min.2 ⟨?_, by decide⟩
  obtain hspread | hspread := Nat.eq_zero_or_pos ((num / 1).log2 - 52)
  · have hround := roundHalfEven_mul num Nat.one_pos
    rw [Nat.mul_one] at hround
    simp only [hspread, Nat.shiftLeft_zero, hround]
    omega
  · exact Nat.add_pos_left (Nat.mul_pos hspread (by decide)) _

/-- What was rounded and is not zero is no exception. -/
theorem zero_add_round (negative : Bool) {num : Nat} (h : 0 < num) :
    0 + round negative num 1 = round negative num 1 := by
  have hle : nearest num 1 ≤ infinityMagnitude := Nat.min_le_right _ _
  have hpos := nearest_pos h
  have hnan : (round negative num 1).isNaN = false := by
    rw [isNaN, round, magnitude_ofParts hle]
    exact decide_eq_false (Nat.not_lt.2 hle)
  have hzero : (round negative num 1).isZero = false := by
    rw [isZero, round, magnitude_ofParts hle]
    exact beq_false_of_ne (Nat.ne_of_gt hpos)
  rw [zero_add_eq, hnan, hzero]
  rfl

/-- The negative zero is an exception. -/
theorem isNegative_eq_false_of_zero_add {x : Binary64} (h : 0 + x = x) (hzero : x.magnitude = 0) :
    x.isNegative = false := by
  have hnan : x.isNaN = false := by
    rw [isNaN, hzero]
    rfl
  have hx : x = 0 := by
    rw [zero_add_eq, hnan, isZero, hzero] at h
    exact h.symm
  rw [hx]
  rfl

/-- **Adding to zero once is as good as adding to zero twice.** -/
theorem zero_add_add {x : Binary64} (h : 0 + x = x) (y : Binary64) : 0 + (x + y) = x + y := by
  have hxy : x + y = add x y := rfl
  rw [hxy, add]
  split_ifs with hnan hx hinvalid hy
  · rw [handOn]
    split_ifs with hx
    · exact zero_add_quiet hx
    · exact zero_add_quiet (by simpa [hx] using hnan)
  · decide
  · exact h
  · have hzero : y.isZero = false := by
      rw [isInfinite, beq_iff_eq] at hy
      rw [isZero, hy]
      rfl
    rw [zero_add_eq, if_neg fun hy => hnan (by rw [hy, Bool.or_true]), hzero]
    rfl
  · rw [addFinite]
    split_ifs with hsum
    · -- both summands are negative only if they are zeros
      have hsign : (x.isNegative && y.isNegative) = false := by
        by_contra hboth
        rw [Bool.not_eq_false, Bool.and_eq_true] at hboth
        rw [signedUnits, signedUnits, hboth.1, hboth.2, if_pos rfl, if_pos rfl] at hsum
        have hunits : x.signedUnits = 0 := by
          rw [signedUnits, hboth.1, if_pos rfl]
          omega
        have := isNegative_eq_false_of_zero_add h (signedUnits_eq_zero_iff.1 hunits)
        exact Bool.false_ne_true (this.symm.trans hboth.1)
      rw [hsign]
      decide
    · exact zero_add_round _ (Int.natAbs_pos.2 hsum)

end Superstep.Binary64
