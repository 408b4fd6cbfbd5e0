import Mathlib.Data.List.TakeWhile
import Superstep.Json.Scanner
import Superstep.Proofs.Binary64.Shortest

/-!
# Numbers in their parts

A number is spelled by digits in up to three places, with signs and marks between them. `Spelling`
keeps the digits of all three as they are written; a spelling that keeps the rules is scanned into
the numeral with the same parts, whatever comes behind it, as long as that does not go on like a
number.

The value of a numeral is a rational number, and only that counts. Which zeros were written is
forgotten when the significant digits are taken, and a number of at most `maxDigits` digits is not
curtailed, so it is read as the magnitude that owns its value.

## Main definitions

* `EndsNumber`: what may stand behind a number
* `Spelling`: the parts of a number as they are written
* `Numeral.units`: the value of a numeral

## Main results

* `scanNumeral_bytes`: a spelling is scanned into its parts
* `Numeral.toBinary64_of_owns`: a numeral is read as the magnitude that owns it
-/

namespace Superstep.Json

/-! ### What digits denote -/

/-- Digits that more digits follow. -/
theorem foldl_digits (digits : Bytes) (n : Nat) :
    digits.foldl (fun n b => 10 * n + (b.toNat - 48)) n =
      n * 10 ^ digits.length + natOfDigitBytes digits := by
  rw [natOfDigitBytes]
  induction digits generalizing n with
  | nil => simp
  | cons b rest ih =>
    rw [List.foldl_cons, List.foldl_cons, ih, ih (10 * 0 + (b.toNat - 48)), List.length_cons,
      Nat.pow_succ]
    ring

theorem natOfDigitBytes_append (front rest : Bytes) :
    natOfDigitBytes (front ++ rest) =
      natOfDigitBytes front * 10 ^ rest.length + natOfDigitBytes rest := by
  rw [natOfDigitBytes, List.foldl_append]
  exact foldl_digits rest _

theorem natOfDigitBytes_zero_cons (rest : Bytes) :
    natOfDigitBytes (48 :: rest) = natOfDigitBytes rest := rfl

theorem natOfDigitBytes_replicate (n : Nat) : natOfDigitBytes (List.replicate n 48) = 0 := by
  induction n with
  | zero => rfl
  | succ n ih => rwa [List.replicate_succ, natOfDigitBytes_zero_cons]

/-- Zeros in front do not count. -/
theorem natOfDigitBytes_dropWhile (digits : Bytes) :
    natOfDigitBytes (digits.dropWhile (· == 48)) = natOfDigitBytes digits := by
  induction digits with
  | nil => rfl
  | cons b rest ih =>
    by_cases hb : b = 48
    · subst hb
      rw [List.dropWhile_cons_of_pos rfl, ih, natOfDigitBytes_zero_cons]
    · rw [List.dropWhile_cons_of_neg (by simpa using hb)]

theorem exists_dropLastZeros (digits : Bytes) :
    ∃ n, digits = dropLastZeros digits ++ List.replicate n 48 := by
  refine ⟨(digits.reverse.takeWhile (· == 48)).length, ?_⟩
  have hzeros : digits.reverse.takeWhile (· == 48) =
      List.replicate (digits.reverse.takeWhile (· == 48)).length 48 :=
    List.eq_replicate_iff.2 ⟨rfl, fun b hb => by simpa using List.mem_takeWhile_imp hb⟩
  have hsplit := List.takeWhile_append_dropWhile (p := (· == 48)) (l := digits.reverse)
  rw [hzeros] at hsplit
  rw [dropLastZeros, ← List.reverse_replicate, ← List.reverse_append, hsplit, List.reverse_reverse]

/-! ### The value of a numeral -/

namespace Numeral

/-- The digits of both parts. -/
def digits (n : Numeral) : Bytes := n.whole ++ n.fraction.getD []

/-- The power of ten that the last digit counts. -/
def lastPlace (n : Numeral) : Int := n.exponent.getD 0 - (n.fraction.getD []).length

/-- The value of a numeral without its sign, in units. -/
def units (n : Numeral) : ℚ := Binary64.decimalUnits (natOfDigitBytes n.digits) n.lastPlace

theorem units_significant (n : Numeral) :
    Binary64.decimalUnits (natOfDigitBytes n.significant.1) n.significant.2 = n.units := by
  obtain ⟨zeros, hzeros⟩ := exists_dropLastZeros (n.fraction.getD [])
  have hdigits : natOfDigitBytes n.digits =
      natOfDigitBytes (n.whole ++ dropLastZeros (n.fraction.getD [])) * 10 ^ zeros := by
    rw [digits, hzeros, ← List.append_assoc, natOfDigitBytes_append, natOfDigitBytes_replicate,
      Nat.add_zero, List.length_replicate, ← hzeros]
  have hlength : ((n.fraction.getD []).length : Int) =
      (dropLastZeros (n.fraction.getD [])).length + zeros := by
    have := congrArg List.length hzeros
    rw [List.length_append, List.length_replicate] at this
    omega
  have hplace : n.exponent.getD 0 - ((dropLastZeros (n.fraction.getD [])).length : Int) =
      zeros + n.lastPlace := by
    rw [lastPlace, hlength]
    omega
  rw [units, hdigits, significant, natOfDigitBytes_dropWhile, Binary64.decimalUnits,
    Binary64.decimalUnits, hplace, zpow_add₀ (by norm_num), zpow_natCast]
  push_cast
  ring

theorem length_significant_le (n : Numeral) : n.significant.1.length ≤ n.digits.length := by
  obtain ⟨zeros, hzeros⟩ := exists_dropLastZeros (n.fraction.getD [])
  have hlength := congrArg List.length hzeros
  rw [List.length_append, List.length_replicate] at hlength
  refine Nat.le_trans (List.dropWhile_sublist _).length_le ?_
  rw [digits, List.length_append, List.length_append]
  omega

theorem toBinary64_eq {n : Numeral} (h : n.digits.length ≤ maxDigits) :
    n.toBinary64 =
      Binary64.ofDecimal n.negative (natOfDigitBytes n.significant.1) n.significant.2 := by
  rw [toBinary64, curtail, if_pos (Nat.le_trans n.length_significant_le h)]

/-- **A numeral is read as the magnitude that owns it.** -/
theorem toBinary64_of_owns {n : Numeral} {m : Nat} (h : n.digits.length ≤ maxDigits) (hm : 0 < m)
    (hfin : m < Binary64.infinityMagnitude) (howns : Binary64.Owns m n.units) :
    n.toBinary64 = Binary64.ofParts n.negative m := by
  rw [← units_significant] at howns
  rw [toBinary64_eq h]
  exact Binary64.ofDecimal_of_owns hm hfin howns n.negative

theorem value_real {n : Numeral} {x : Binary64} (h : n.fraction.isSome ∨ n.exponent.isSome)
    (hx : n.toBinary64 = x) (hfin : x.isFinite) : n.value = .ok (.real x) := by
  have hplain : (n.fraction.isNone && n.exponent.isNone) = false := by
    rcases h with h | h
    · rw [Option.isNone_eq_false_iff.2 h, Bool.false_and]
    · rw [Option.isNone_eq_false_iff.2 h, Bool.and_false]
  simp [value, hplain, hx, hfin]

end Numeral

/-! ### Scanning digits -/

/-- A run of digits. -/
structure Digits (digits : Bytes) : Prop where
  ne_nil : digits ≠ []
  all : ∀ b ∈ digits, isDigitByte b = true

/-- The text does not go on with a digit. -/
def NoDigit (rest : Bytes) : Prop := ∀ b ∈ rest.head?, isDigitByte b = false

/-- The text does not go on like a number. -/
structure EndsNumber (rest : Bytes) : Prop where
  noDigit : NoDigit rest
  noPoint : rest.head? ≠ some 46
  noExponent : rest.head? ≠ some 101 ∧ rest.head? ≠ some 69

theorem NoDigit.cons {b : UInt8} (h : isDigitByte b = false) (rest : Bytes) :
    NoDigit (b :: rest) := by
  intro c hc
  obtain rfl : b = c := by simpa using hc
  exact h

theorem scanDigits_append {digits rest : Bytes} (h : Digits digits) (hrest : NoDigit rest) :
    scanDigits (digits ++ rest) = .ok (digits, rest) := by
  have htake : (digits ++ rest).takeWhile isDigitByte = digits := by
    rw [List.takeWhile_append_of_pos h.all]
    cases rest with
    | nil => rw [List.takeWhile_nil, List.append_nil]
    | cons b rest =>
      have hb : isDigitByte b = false := hrest b rfl
      rw [List.takeWhile_cons_of_neg (by simp [hb]), List.append_nil]
  have hdrop : (digits ++ rest).dropWhile isDigitByte = rest := by
    rw [List.dropWhile_append_of_pos h.all]
    cases rest with
    | nil => rfl
    | cons b rest =>
      have hb : isDigitByte b = false := hrest b rfl
      rw [List.dropWhile_cons_of_neg (by simp [hb])]
  rw [scanDigits, htake, hdrop]
  split
  · exact absurd rfl h.ne_nil
  · exact absurd rfl h.ne_nil
  · rfl

/-- A whole part has no zero in front of another digit. -/
def NoLeadingZero (digits : Bytes) : Prop := digits.head? = some 48 → digits = [48]

theorem scanWhole_append {digits rest : Bytes} (h : Digits digits) (hzero : NoLeadingZero digits)
    (hrest : NoDigit rest) : scanWhole (digits ++ rest) = .ok (digits, rest) := by
  show (scanDigits (digits ++ rest) >>= _) = _
  rw [scanDigits_append h hrest]
  simp only [bind, Except.bind]
  split
  · rename_i b others
    cases hzero rfl
  · rfl

/-! ### Scanning numbers -/

/-- The parts of a number as they are written. -/
structure Spelling where
  negative : Bool
  whole : Bytes
  fraction : Option Bytes
  /-- The sign and the digits of the exponent. -/
  exponent : Option (Bool × Bytes)

namespace Spelling

def fractionBytes : Option Bytes → Bytes
  | none => []
  | some digits => 46 :: digits

def exponentBytes : Option (Bool × Bytes) → Bytes
  | none => []
  | some (negative, digits) => 101 :: (if negative then 45 else 43) :: digits

/-- The text of a spelling. -/
def bytes (s : Spelling) : Bytes :=
  (if s.negative then [45] else []) ++ (s.whole ++ (fractionBytes s.fraction ++
    exponentBytes s.exponent))

/-- The value of an exponent. -/
def exponentOf (exponent : Bool × Bytes) : Int :=
  if exponent.1 then -(natOfDigitBytes exponent.2 : Int) else natOfDigitBytes exponent.2

/-- What a spelling is scanned into. -/
def numeral (s : Spelling) : Numeral :=
  ⟨s.negative, s.whole, s.fraction, s.exponent.map exponentOf⟩

/-- Every part that is there has digits, and the whole part starts with no zero that it does not
need. -/
structure WellFormed (s : Spelling) : Prop where
  whole : Digits s.whole
  noLeadingZero : NoLeadingZero s.whole
  fraction : ∀ digits ∈ s.fraction, Digits digits
  exponent : ∀ exponent ∈ s.exponent, Digits exponent.2

end Spelling

theorem scanSign_bytes (negative : Bool) {rest : Bytes} (h : rest.head? ≠ some 45) :
    scanSign ((if negative then [45] else []) ++ rest) = (negative, rest) := by
  cases negative with
  | true => rfl
  | false =>
    show scanSign rest = (false, rest)
    unfold scanSign
    split
    · exact absurd rfl h
    · rfl

theorem scanFraction_bytes {fraction : Option Bytes} {rest : Bytes}
    (h : ∀ digits ∈ fraction, Digits digits) (hdigit : NoDigit rest)
    (hpoint : rest.head? ≠ some 46) :
    scanFraction (Spelling.fractionBytes fraction ++ rest) = .ok (fraction, rest) := by
  cases fraction with
  | none =>
    show scanFraction rest = .ok (none, rest)
    unfold scanFraction
    split
    · exact absurd rfl hpoint
    · rfl
  | some digits =>
    show (scanDigits (digits ++ rest)).map _ = _
    rw [scanDigits_append (h digits rfl) hdigit]
    rfl

theorem scanExponent_bytes {exponent : Option (Bool × Bytes)} {rest : Bytes}
    (h : ∀ exponent' ∈ exponent, Digits exponent'.2) (hrest : EndsNumber rest) :
    scanExponent (Spelling.exponentBytes exponent ++ rest) =
      .ok (exponent.map Spelling.exponentOf, rest) := by
  cases exponent with
  | none =>
    obtain ⟨he, hE⟩ := hrest.noExponent
    cases rest with
    | nil => rfl
    | cons b rest =>
      have hletter : (b == 101 || b == 69) = false := by
        simp only [Bool.or_eq_false_iff, beq_eq_false_iff_ne]
        exact ⟨fun hb => he (by rw [hb]; rfl), fun hb => hE (by rw [hb]; rfl)⟩
      show scanExponent (b :: rest) = _
      rw [scanExponent, hletter]
      rfl
  | some exponent =>
    obtain ⟨negative, digits⟩ := exponent
    have hsign : scanExponentSign ((if negative then 45 else 43) :: (digits ++ rest)) =
        (negative, digits ++ rest) := by
      cases negative <;> rfl
    show scanExponent (101 :: ((if negative then 45 else 43) :: (digits ++ rest))) = _
    rw [scanExponent, if_pos (by decide), hsign]
    show (scanDigits (digits ++ rest)).map _ = _
    rw [scanDigits_append (h _ rfl) hrest.noDigit]
    rfl

theorem EndsNumber.exponent_append {rest : Bytes} (h : EndsNumber rest)
    (exponent : Option (Bool × Bytes)) :
    NoDigit (Spelling.exponentBytes exponent ++ rest) ∧
      (Spelling.exponentBytes exponent ++ rest).head? ≠ some 46 := by
  cases exponent with
  | none => exact ⟨h.noDigit, h.noPoint⟩
  | some exponent => exact ⟨NoDigit.cons rfl _, by simp [Spelling.exponentBytes]⟩

theorem NoDigit.fraction_append {rest : Bytes} (h : NoDigit rest) (fraction : Option Bytes) :
    NoDigit (Spelling.fractionBytes fraction ++ rest) := by
  cases fraction with
  | none => exact h
  | some digits => exact NoDigit.cons rfl _

theorem Digits.head?_append {digits : Bytes} (h : Digits digits) (rest : Bytes) :
    ∃ b, isDigitByte b = true ∧ (digits ++ rest).head? = some b := by
  obtain ⟨b, others, rfl⟩ := List.exists_cons_of_ne_nil h.ne_nil
  exact ⟨b, h.all b List.mem_cons_self, rfl⟩

/-- **A spelling is scanned into its parts.** -/
theorem scanNumeral_bytes {s : Spelling} (h : s.WellFormed) {rest : Bytes}
    (hrest : EndsNumber rest) : scanNumeral (s.bytes ++ rest) = .ok (s.numeral, rest) := by
  obtain ⟨hexponent, hpoint⟩ := hrest.exponent_append s.exponent
  have hfraction := hexponent.fraction_append s.fraction
  obtain ⟨b, hb, hhead⟩ := h.whole.head?_append (Spelling.fractionBytes s.fraction ++
    (Spelling.exponentBytes s.exponent ++ rest))
  have hsign : some b ≠ some 45 := by
    rintro ⟨⟩
    exact absurd hb (by decide)
  rw [Spelling.bytes, List.append_assoc, List.append_assoc, List.append_assoc, scanNumeral,
    scanSign_bytes s.negative (by rwa [hhead])]
  show (scanWhole _ >>= _) = _
  rw [scanWhole_append h.whole h.noLeadingZero hfraction]
  show (scanFraction _ >>= _) = _
  rw [scanFraction_bytes h.fraction hexponent hpoint]
  show (scanExponent _ >>= _) = _
  rw [scanExponent_bytes h.exponent hrest]
  rfl

end Superstep.Json
