import Mathlib.Data.List.Induction
import Superstep.Text.Numeral

/-!
# Numerals

A number has one list of decimal digits, and every numeral of it is that list behind zeros and
perhaps a plus sign. This is what `natBelow?` reads, so a word stands for one number at most and
zeros in front never count.

## Main results

* `exists_zeros`: digits are zeros and the digits of a number
* `natBelow?_eq_some_iff`: what is read from a word
-/

namespace Superstep.Text

/-- The word is a plus sign or none, zeros, and the digits of `n`. -/
def Numeral (n : Nat) (word : List Char) : Prop :=
  ∃ sign zeros, (sign = [] ∨ sign = ['+']) ∧
    word = sign ++ (List.replicate zeros '0' ++ digitsOfNat n)

theorem toNat_of_isDigit {c : Char} (h : c.isDigit = true) : 48 ≤ c.toNat ∧ c.toNat ≤ 57 := by
  simpa [Char.isDigit, UInt32.le_iff_toNat_le] using h

theorem isDigit_of_mem_digitsOfNat {n : Nat} : ∀ c ∈ digitsOfNat n, c.isDigit = true :=
  fun _ hc => Nat.isDigit_of_mem_toDigits (by decide) (by decide) hc

/-- The first digit is no sign. -/
theorem dropPlus_of_isDigit {digits : List Char} (h : ∀ c ∈ digits, c.isDigit = true) :
    dropPlus digits = digits := by
  unfold dropPlus
  split
  · have hplus := h '+' List.mem_cons_self
    cases hplus
  · rfl

theorem natBelow?_eq_ite {bound : Nat} {word digits : List Char} (hdrop : dropPlus word = digits)
    (hne : digits ≠ []) (hdigits : ∀ c ∈ digits, c.isDigit = true) :
    natBelow? bound word =
      if natOfDigits digits < bound then some (natOfDigits digits) else none := by
  have hall : digits.all Char.isDigit = true := List.all_eq_true.2 hdigits
  simp [natBelow?, hdrop, hne, hall]

/-! ### Digits -/

theorem natOfDigits_append_singleton (digits : List Char) (c : Char) :
    natOfDigits (digits ++ [c]) = 10 * natOfDigits digits + (c.toNat - 48) := by
  rw [natOfDigits, List.foldl_append]
  rfl

theorem natOfDigits_zeros_append (zeros : Nat) (digits : List Char) :
    natOfDigits (List.replicate zeros '0' ++ digits) = natOfDigits digits := by
  induction zeros with
  | zero => rfl
  | succ zeros ih => exact ih

theorem natOfDigits_digitsOfNat (n : Nat) : natOfDigits (digitsOfNat n) = n :=
  Nat.ofDigitChars_ten_toDigits

theorem exists_digit {c : Char} (hc : c.isDigit = true) :
    ∃ d < 10, c.toNat - 48 = d ∧ digitsOfNat d = [c] := by
  have hrange := toNat_of_isDigit hc
  have hlt : c.toNat - 48 < 10 := by omega
  refine ⟨c.toNat - 48, hlt, rfl, ?_⟩
  rw [digitsOfNat, Nat.toDigits_of_lt_base hlt]
  have hchar : (c.toNat - 48).digitChar = c := by
    rw [← Char.toNat_inj, Nat.toNat_digitChar_of_lt_ten hlt]
    omega
  rw [hchar]

/-- **Digits are zeros and the digits of a number.** -/
theorem exists_zeros {digits : List Char} (hne : digits ≠ [])
    (hdigits : ∀ c ∈ digits, c.isDigit = true) :
    ∃ zeros, digits = List.replicate zeros '0' ++ digitsOfNat (natOfDigits digits) := by
  induction digits using List.reverseRecOn with
  | nil => exact absurd rfl hne
  | append_singleton front c ih =>
    obtain ⟨hfront, hc⟩ := List.forall_mem_append.1 hdigits
    obtain ⟨d, hd, hvalue, hchar⟩ := exists_digit (hc c (List.mem_singleton_self c))
    rw [natOfDigits_append_singleton, hvalue]
    by_cases hnil : front = []
    · subst hnil
      exact ⟨0, by rw [natOfDigits, List.foldl_nil, Nat.mul_zero, Nat.zero_add, hchar]; rfl⟩
    · obtain ⟨zeros, hzeros⟩ := ih hnil hfront
      rcases Nat.eq_zero_or_pos (natOfDigits front) with hzero | hpos
      · -- What stands before the last digit is zeros only.
        refine ⟨zeros + 1, ?_⟩
        rw [hzero] at hzeros ⊢
        rw [hzeros, Nat.mul_zero, Nat.zero_add, hchar, List.replicate_succ']
        rfl
      · refine ⟨zeros, ?_⟩
        have happend : digitsOfNat (natOfDigits front) ++ digitsOfNat d =
            digitsOfNat (10 * natOfDigits front + d) :=
          Nat.toDigits_append_toDigits (by decide) hpos hd
        rw [← happend, ← List.append_assoc, ← hzeros, hchar]

/-! ### Words -/

/-- **What is read from a word** is the number that it is a numeral of, if that is small enough. -/
theorem natBelow?_eq_some_iff {bound n : Nat} {word : List Char} :
    natBelow? bound word = some n ↔ Numeral n word ∧ n < bound := by
  constructor
  · intro h
    rw [natBelow?] at h
    split at h
    · rename_i hword
      obtain rfl := Option.some_inj.1 h
      simp only [Bool.and_eq_true, Bool.not_eq_true', List.isEmpty_eq_false_iff, List.all_eq_true,
        decide_eq_true_eq] at hword
      obtain ⟨⟨hne, hdigits⟩, hlt⟩ := hword
      obtain ⟨zeros, hzeros⟩ := exists_zeros hne hdigits
      refine ⟨?_, hlt⟩
      unfold dropPlus at hzeros ⊢
      split at hzeros
      · exact ⟨['+'], zeros, .inr rfl, congrArg ('+' :: ·) hzeros⟩
      · exact ⟨[], zeros, .inl rfl, hzeros⟩
    · cases h
  · rintro ⟨⟨sign, zeros, hsign, rfl⟩, hlt⟩
    have hdigits : ∀ c ∈ List.replicate zeros '0' ++ digitsOfNat n, c.isDigit = true := by
      refine List.forall_mem_append.2 ⟨fun c hc => ?_, isDigit_of_mem_digitsOfNat⟩
      rw [List.eq_of_mem_replicate hc]
      decide
    have hdrop : dropPlus (sign ++ (List.replicate zeros '0' ++ digitsOfNat n)) =
        List.replicate zeros '0' ++ digitsOfNat n := by
      rcases hsign with rfl | rfl
      · exact dropPlus_of_isDigit hdigits
      · rfl
    have hne : List.replicate zeros '0' ++ digitsOfNat n ≠ [] :=
      List.append_ne_nil_of_right_ne_nil _ Nat.toDigits_ne_nil
    rw [natBelow?_eq_ite hdrop hne hdigits, natOfDigits_zeros_append, natOfDigits_digitsOfNat,
      if_pos hlt]

/-- A numeral opens with its sign or a digit. -/
theorem Numeral.of_head? {n : Nat} {word : List Char} (h : Numeral n word) :
    ∀ c ∈ word.head?, c = '+' ∨ c.isDigit = true := by
  obtain ⟨sign, zeros, rfl | rfl, rfl⟩ := h
  · intro c hc
    rw [List.nil_append] at hc
    refine .inr ?_
    rcases List.mem_append.1 (List.mem_of_mem_head? hc) with hc | hc
    · rw [List.eq_of_mem_replicate hc]
      decide
    · exact isDigit_of_mem_digitsOfNat c hc
  · rintro c hc
    exact .inl (Option.some_inj.1 hc).symm

theorem numeral_digitsOfNat (n : Nat) : Numeral n (digitsOfNat n) := ⟨[], 0, .inl rfl, rfl⟩

/-- A natural number is read back from its digits. -/
theorem natBelow?_digitsOfNat {n bound : Nat} (h : n < bound) :
    natBelow? bound (digitsOfNat n) = some n :=
  natBelow?_eq_some_iff.2 ⟨numeral_digitsOfNat n, h⟩

/-- A word that nothing is read from is a numeral of no number that is small enough. -/
theorem natBelow?_eq_none_iff {bound : Nat} {word : List Char} :
    natBelow? bound word = none ↔ ∀ n, Numeral n word → bound ≤ n := by
  rw [Option.eq_none_iff_forall_ne_some]
  refine forall_congr' fun n => ?_
  rw [Ne, natBelow?_eq_some_iff, not_and, Nat.not_lt]

end Superstep.Text
