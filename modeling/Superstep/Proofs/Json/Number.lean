import Superstep.Json.Basic
import Superstep.Proofs.Json.Numeral
import Superstep.Proofs.Text.Bytes
import Superstep.Proofs.Text.Numeral

/-!
# Numbers read back

A number is written in the form in which it was read, so it can be read again: a whole number of at
most sixty-four bits as it is, any other one as the shortest decimal. That decimal always has a
point or an exponent, so it is never mistaken for a whole number, and the zero keeps its sign.

## Main definitions

* `Number.Canonical`: the numbers that a reader can give
* `Parts.Spells`: how a decimal is spelled

## Main results

* `readNumber_render`: a number that is written reads back
-/

namespace Superstep

open Text (utf8 utf8_append utf8_cons_of_lt utf8_eq_map toNat_of_isDigit isDigit_of_mem_digitsOfNat)

/-! ### Digits as bytes -/

namespace Json

theorem lt_of_isDigit {chars : List Char} (h : ∀ c ∈ chars, c.isDigit = true) :
    ∀ c ∈ chars, c.toNat < 128 := fun c hc => by
  have := toNat_of_isDigit (h c hc)
  omega

theorem digits_utf8 {chars : List Char} (hne : chars ≠ []) (h : ∀ c ∈ chars, c.isDigit = true) :
    Digits (utf8 chars) := by
  rw [utf8_eq_map (lt_of_isDigit h)]
  refine ⟨by simpa using hne, fun b hb => ?_⟩
  obtain ⟨c, hc, rfl⟩ := List.mem_map.1 hb
  have := toNat_of_isDigit (h c hc)
  simp only [isDigitByte, Bool.and_eq_true, decide_eq_true_eq, UInt8.le_iff_toNat_le,
    UInt8.toNat_ofNat']
  exact ⟨show 48 ≤ _ by omega, show _ ≤ 57 by omega⟩

theorem length_utf8_of_isDigit {chars : List Char} (h : ∀ c ∈ chars, c.isDigit = true) :
    (utf8 chars).length = chars.length := by
  rw [utf8_eq_map (lt_of_isDigit h), List.length_map]

theorem natOfDigitBytes_utf8 {chars : List Char} (h : ∀ c ∈ chars, c.isDigit = true) :
    natOfDigitBytes (utf8 chars) = Nat.ofDigitChars 10 chars 0 := by
  rw [utf8_eq_map (lt_of_isDigit h), natOfDigitBytes, List.foldl_map, Nat.ofDigitChars]
  generalize 0 = start
  induction chars generalizing start with
  | nil => rfl
  | cons c rest ih =>
    have hc := toNat_of_isDigit (h c List.mem_cons_self)
    have hbyte : (UInt8.ofNat c.toNat).toNat - 48 = c.toNat - '0'.toNat := by
      rw [UInt8.toNat_ofNat', Nat.mod_eq_of_lt (by omega)]
      rfl
    rw [List.foldl_cons, List.foldl_cons, hbyte, ih fun c hc => h c (List.mem_cons_of_mem _ hc)]

/-- A zero in front is a digit zero in front. -/
theorem noLeadingZero_utf8 {chars : List Char} (h : ∀ c ∈ chars, c.isDigit = true)
    (hzero : chars.head? = some '0' → chars = ['0']) : NoLeadingZero (utf8 chars) := by
  intro hhead
  cases chars with
  | nil => cases hhead
  | cons c rest =>
    have hc := toNat_of_isDigit (h c List.mem_cons_self)
    rw [utf8_cons_of_lt (by omega), List.head?_cons] at hhead
    have hbyte := congrArg UInt8.toNat (Option.some.inj hhead)
    rw [UInt8.toNat_ofNat', Nat.mod_eq_of_lt (by omega)] at hbyte
    have hchar : c = '0' := Char.toNat_inj.1 hbyte
    rw [hzero (by rw [hchar]; rfl)]
    rfl

/-! ### The digits of a natural number -/

theorem digits_toDigits (n : Nat) : Digits (utf8 (Nat.toDigits 10 n)) :=
  digits_utf8 Nat.toDigits_ne_nil isDigit_of_mem_digitsOfNat

theorem natOfDigitBytes_toDigits (n : Nat) : natOfDigitBytes (utf8 (Nat.toDigits 10 n)) = n :=
  (natOfDigitBytes_utf8 isDigit_of_mem_digitsOfNat).trans Nat.ofDigitChars_ten_toDigits

theorem length_toDigits_le {n k : Nat} (hk : 0 < k) (h : n < 10 ^ k) :
    (Nat.toDigits 10 n).length ≤ k := (Nat.length_toDigits_le_iff (by decide) hk).2 h

theorem head?_toDigits {n : Nat} (h : 0 < n) : (Nat.toDigits 10 n).head? ≠ some '0' := by
  induction n using Nat.strongRecOn with
  | ind n ih =>
    rcases Nat.lt_or_ge n 10 with hlt | hge
    · rw [Nat.toDigits_of_lt_base hlt, List.head?_cons]
      intro hzero
      have hchar := congrArg Char.toNat (Option.some.inj hzero)
      rw [Nat.toNat_digitChar_of_lt_ten hlt] at hchar
      have : '0'.toNat = 48 := rfl
      omega
    · rw [Nat.toDigits_of_base_le (by decide) hge,
        List.head?_append_of_ne_nil _ Nat.toDigits_ne_nil]
      exact ih (n / 10) (by omega) (by omega)

theorem noLeadingZero_toDigits {n : Nat} (hzero : (Nat.toDigits 10 n).head? = some '0') :
    Nat.toDigits 10 n = ['0'] := by
  rcases Nat.eq_zero_or_pos n with rfl | hpos
  · rfl
  · exact absurd hzero (head?_toDigits hpos)

/-! ### Spelling a decimal -/

/-- The parts of a spelled decimal, as characters. -/
structure Parts where
  whole : List Char
  fraction : Option (List Char)
  power : Option Int

namespace Parts

/-- The parts put together. -/
def chars (p : Parts) : List Char :=
  p.whole ++ (p.fraction.elim [] ('.' :: ·) ++
    p.power.elim [] fun n => 'e' :: (if n < 0 then '-' else '+') :: Nat.toDigits 10 n.natAbs)

def spelling (p : Parts) (negative : Bool) : Spelling :=
  ⟨negative, utf8 p.whole, p.fraction.map utf8,
    p.power.map fun n => (decide (n < 0), utf8 (Nat.toDigits 10 n.natAbs))⟩

/-- The parts spell the decimal `d`, and not as a whole number. -/
structure Spells (p : Parts) (d : Decimal) : Prop where
  whole_ne_nil : p.whole ≠ []
  whole_isDigit : ∀ c ∈ p.whole, c.isDigit = true
  noLeadingZero : p.whole.head? = some '0' → p.whole = ['0']
  fraction_ne_nil : ∀ digits ∈ p.fraction, digits ≠ []
  fraction_isDigit : ∀ digits ∈ p.fraction, ∀ c ∈ digits, c.isDigit = true
  units_eq : Binary64.decimalUnits (Nat.ofDigitChars 10 (p.whole ++ p.fraction.getD []) 0)
    (p.power.getD 0 - (p.fraction.getD []).length) = Binary64.decimalUnits d.digits d.exponent
  marked : p.fraction.isSome ∨ p.power.isSome
  short : (p.whole ++ p.fraction.getD []).length ≤ maxDigits

theorem utf8_chars (p : Parts) (negative : Bool) :
    utf8 (if negative then '-' :: p.chars else p.chars) = (p.spelling negative).bytes := by
  have hfraction : utf8 (p.fraction.elim [] ('.' :: ·)) =
      Spelling.fractionBytes (p.fraction.map utf8) := by
    cases p.fraction <;> rfl
  have hpower : utf8 (p.power.elim [] fun n => 'e' :: (if n < 0 then '-' else '+') ::
      Nat.toDigits 10 n.natAbs) = Spelling.exponentBytes
        (p.power.map fun n => (decide (n < 0), utf8 (Nat.toDigits 10 n.natAbs))) := by
    cases p.power with
    | none => rfl
    | some n =>
      rw [Option.elim_some, Option.map_some, Spelling.exponentBytes]
      by_cases hn : n < 0
      · rw [if_pos hn, decide_eq_true hn]
        rfl
      · rw [if_neg hn, decide_eq_false hn]
        rfl
  have hchars : utf8 p.chars = utf8 p.whole ++ (Spelling.fractionBytes (p.fraction.map utf8) ++
      Spelling.exponentBytes
        (p.power.map fun n => (decide (n < 0), utf8 (Nat.toDigits 10 n.natAbs)))) := by
    rw [chars, utf8_append, utf8_append, hfraction, hpower]
  cases negative with
  | false => exact hchars
  | true => exact congrArg (45 :: ·) hchars

variable {p : Parts} {d : Decimal} (h : p.Spells d)
include h

theorem Spells.isDigit : ∀ c ∈ p.whole ++ p.fraction.getD [], c.isDigit = true := by
  intro c hc
  rcases List.mem_append.1 hc with hc | hc
  · exact h.whole_isDigit c hc
  · cases hf : p.fraction with
    | none =>
      rw [hf] at hc
      exact absurd hc List.not_mem_nil
    | some digits =>
      rw [hf] at hc
      exact h.fraction_isDigit digits hf c hc

theorem Spells.wellFormed (negative : Bool) : (p.spelling negative).WellFormed where
  whole := digits_utf8 h.whole_ne_nil h.whole_isDigit
  noLeadingZero := noLeadingZero_utf8 h.whole_isDigit h.noLeadingZero
  fraction := by
    intro digits hd
    obtain ⟨chars, hf, rfl⟩ := Option.map_eq_some_iff.1 hd
    exact digits_utf8 (h.fraction_ne_nil chars hf) (h.fraction_isDigit chars hf)
  exponent := by
    intro exponent he
    obtain ⟨n, -, rfl⟩ := Option.map_eq_some_iff.1 he
    exact digits_toDigits n.natAbs

omit h in
theorem digits_spelling (negative : Bool) :
    (p.spelling negative).numeral.digits = utf8 (p.whole ++ p.fraction.getD []) := by
  show utf8 p.whole ++ (p.fraction.map utf8).getD [] = _
  rw [utf8_append]
  cases p.fraction <;> rfl

theorem Spells.units_spelling (negative : Bool) :
    (p.spelling negative).numeral.units = Binary64.decimalUnits d.digits d.exponent := by
  have hfraction : (((p.fraction.map utf8).getD []).length : Int) =
      (p.fraction.getD []).length := by
    cases hf : p.fraction with
    | none => rfl
    | some digits =>
      exact congrArg Int.ofNat (length_utf8_of_isDigit (h.fraction_isDigit digits hf))
  have hpower : ((p.spelling negative).exponent.map Spelling.exponentOf).getD 0 =
      p.power.getD 0 := by
    show ((p.power.map _).map Spelling.exponentOf).getD 0 = _
    cases p.power with
    | none => rfl
    | some n =>
      show Spelling.exponentOf (decide (n < 0), utf8 (Nat.toDigits 10 n.natAbs)) = n
      rw [Spelling.exponentOf, natOfDigitBytes_toDigits]
      by_cases hn : n < 0
      · rw [decide_eq_true hn, if_pos rfl]
        omega
      · rw [decide_eq_false hn, if_neg Bool.false_ne_true]
        omega
  rw [Numeral.units, digits_spelling, natOfDigitBytes_utf8 h.isDigit, ← h.units_eq]
  show Binary64.decimalUnits _ (((p.spelling negative).exponent.map Spelling.exponentOf).getD 0 -
    ((p.fraction.map utf8).getD []).length) = _
  rw [hpower, hfraction]

/-- What spells the shortest decimal of a magnitude is read as that magnitude. -/
theorem Spells.value_eq {x : Binary64} (hfin : x.isFinite)
    (hread : (p.spelling x.isNegative).numeral.toBinary64 = x) :
    (p.spelling x.isNegative).numeral.value = .ok (.real x) := by
  refine Numeral.value_real ?_ hread hfin
  rcases h.marked with hm | hm
  · exact .inl (by rw [← hm]; exact Option.isSome_map)
  · exact .inr (by rw [← hm]; exact (Option.isSome_map ..).trans Option.isSome_map)

end Parts

section Decimal

variable {d : Decimal} (hpos : 0 < d.digits) (hlen : (Nat.toDigits 10 d.digits).length ≤ 700)
include hpos hlen

/-- A decimal without a fraction of its own gets one zero behind the point. -/
theorem exists_spells_whole (hexponent : 0 ≤ d.exponent) (hplace : d.place ≤ 16) :
    ∃ p : Parts, p.chars = d.positional ∧ p.Spells d := by
  refine ⟨⟨Nat.toDigits 10 d.digits ++ List.replicate d.exponent.toNat '0', some ['0'], none⟩,
    ?_, ?_⟩
  · rw [Decimal.positional, if_pos hexponent]
    rfl
  · have hhead : (Nat.toDigits 10 d.digits ++ List.replicate d.exponent.toNat '0').head? ≠
        some '0' := by
      rw [List.head?_append_of_ne_nil _ Nat.toDigits_ne_nil]
      exact head?_toDigits hpos
    have hvalue : Nat.ofDigitChars 10 (Nat.toDigits 10 d.digits ++
        List.replicate d.exponent.toNat '0' ++ ['0']) 0 =
      d.digits * 10 ^ (d.exponent.toNat + 1) := by
      rw [List.append_assoc, ← List.replicate_succ', Nat.ofDigitChars_append,
        Nat.ofDigitChars_ten_toDigits, Nat.ofDigitChars_replicate_zero, Nat.mul_comm]
    exact {
      whole_ne_nil := List.append_ne_nil_of_left_ne_nil Nat.toDigits_ne_nil _
      whole_isDigit := by
        intro c hc
        rcases List.mem_append.1 hc with hc | hc
        · exact isDigit_of_mem_digitsOfNat c hc
        · rw [List.eq_of_mem_replicate hc]
          rfl
      noLeadingZero := fun h => absurd h hhead
      fraction_ne_nil := by rintro _ ⟨⟩; simp
      fraction_isDigit := by rintro _ ⟨⟩; exact List.forall_mem_singleton.2 rfl
      units_eq := by
        show Binary64.decimalUnits (Nat.ofDigitChars 10 _ 0) (-1) = _
        rw [Option.getD_some, hvalue, Binary64.decimalUnits, Binary64.decimalUnits, Nat.cast_mul,
          Nat.cast_pow, ← zpow_natCast, mul_assoc (d.digits : ℚ), Nat.cast_ofNat,
          ← zpow_add₀ (by norm_num)]
        congr 3
        omega
      marked := .inl rfl
      short := by
        rw [Decimal.place] at hplace
        rw [Option.getD_some, List.length_append, List.length_append, List.length_replicate,
          List.length_singleton, maxDigits]
        omega }

/-- A decimal whose point stands among its digits. -/
theorem exists_spells_point (hexponent : d.exponent < 0) (hplace : 0 < d.place) :
    ∃ p : Parts, p.chars = d.positional ∧ p.Spells d := by
  have hsplit := List.take_append_drop d.place.toNat (Nat.toDigits 10 d.digits)
  have hlength : d.place = (Nat.toDigits 10 d.digits).length + d.exponent := rfl
  refine ⟨⟨(Nat.toDigits 10 d.digits).take d.place.toNat,
    some ((Nat.toDigits 10 d.digits).drop d.place.toNat), none⟩, ?_, ?_⟩
  · rw [Decimal.positional, if_neg (by omega), if_pos hplace]
    rw [Parts.chars, Option.elim_some, Option.elim_none, List.append_nil]
  · exact {
      whole_ne_nil := by
        rw [← List.length_pos_iff, List.length_take]
        have := Nat.length_toDigits_pos (b := 10) (n := d.digits)
        omega
      whole_isDigit := fun c hc => isDigit_of_mem_digitsOfNat c (List.mem_of_mem_take hc)
      noLeadingZero := by
        intro hzero
        rw [List.head?_take, if_neg (by omega)] at hzero
        exact absurd hzero (head?_toDigits hpos)
      fraction_ne_nil := by
        rintro _ ⟨⟩
        rw [← List.length_pos_iff, List.length_drop]
        omega
      fraction_isDigit := by
        rintro _ ⟨⟩ c hc
        exact isDigit_of_mem_digitsOfNat c (List.mem_of_mem_drop hc)
      units_eq := by
        rw [Option.getD_some, hsplit, Nat.ofDigitChars_ten_toDigits, List.length_drop]
        congr 1
        rw [Option.getD_none]
        omega
      marked := .inl rfl
      short := by
        rw [Option.getD_some, hsplit]
        exact Nat.le_trans hlen (by decide) }

omit hpos in
/-- A decimal whose point stands before its digits. -/
theorem exists_spells_fraction (hexponent : d.exponent < 0) (hplace : d.place ≤ 0)
    (hleast : -4 ≤ d.place) : ∃ p : Parts, p.chars = d.positional ∧ p.Spells d := by
  have hlength : d.place = (Nat.toDigits 10 d.digits).length + d.exponent := rfl
  refine ⟨⟨['0'], some (List.replicate (-d.place).toNat '0' ++ Nat.toDigits 10 d.digits), none⟩,
    ?_, ?_⟩
  · rw [Decimal.positional, if_neg (by omega), if_neg (by omega)]
    rw [Parts.chars, Option.elim_some, Option.elim_none, List.append_nil]
    rfl
  · have hvalue : Nat.ofDigitChars 10 (['0'] ++ (List.replicate (-d.place).toNat '0' ++
        Nat.toDigits 10 d.digits)) 0 = d.digits := by
      rw [Nat.ofDigitChars_append, Nat.ofDigitChars_append]
      show Nat.ofDigitChars 10 (Nat.toDigits 10 d.digits)
        (Nat.ofDigitChars 10 (List.replicate (-d.place).toNat '0') 0) = _
      rw [Nat.ofDigitChars_replicate_zero, Nat.mul_zero, Nat.ofDigitChars_ten_toDigits]
    exact {
      whole_ne_nil := by simp
      whole_isDigit := by
        intro c hc
        rw [List.mem_singleton.1 hc]
        rfl
      noLeadingZero := fun _ => rfl
      fraction_ne_nil := by
        rintro _ ⟨⟩
        exact List.append_ne_nil_of_right_ne_nil _ Nat.toDigits_ne_nil
      fraction_isDigit := by
        rintro _ ⟨⟩ c hc
        rcases List.mem_append.1 hc with hc | hc
        · rw [List.eq_of_mem_replicate hc]
          rfl
        · exact isDigit_of_mem_digitsOfNat c hc
      units_eq := by
        rw [Option.getD_some, hvalue, List.length_append, List.length_replicate]
        congr 1
        rw [Option.getD_none]
        omega
      marked := .inl rfl
      short := by
        rw [Option.getD_some, List.length_append, List.length_append, List.length_replicate,
          List.length_singleton, maxDigits]
        omega }

omit hpos in
/-- A decimal with an exponent. -/
theorem exists_spells_scientific : ∃ p : Parts, p.chars = d.scientific ∧ p.Spells d := by
  obtain ⟨lead, tail, hd⟩ :=
    List.exists_cons_of_ne_nil (Nat.toDigits_ne_nil (b := 10) (n := d.digits))
  have hdigit : ∀ c ∈ lead :: tail, c.isDigit = true := hd ▸ isDigit_of_mem_digitsOfNat
  have hvalue : Nat.ofDigitChars 10 (lead :: tail) 0 = d.digits := by
    rw [← hd, Nat.ofDigitChars_ten_toDigits]
  have hlength : d.place = (tail.length + 1 : Nat) + d.exponent := by
    rw [Decimal.place, hd, List.length_cons]
  have hlen' : tail.length + 1 ≤ 700 := by rwa [hd, List.length_cons] at hlen
  refine ⟨⟨[lead], if tail = [] then none else some tail, some (d.place - 1)⟩, ?_, ?_⟩
  · rw [Decimal.scientific, hd, Parts.chars]
    cases tail <;> rfl
  · have hfraction : (if tail = [] then none else some tail).getD [] = tail := by
      split
      · rename_i hnil
        exact hnil.symm
      · rfl
    have hmem : ∀ digits ∈ if tail = [] then none else some tail, digits = tail ∧ tail ≠ [] := by
      intro digits hdigits
      split at hdigits
      · cases hdigits
      · rename_i hne
        exact ⟨(Option.some.inj hdigits).symm, hne⟩
    exact {
      whole_ne_nil := by simp
      whole_isDigit := by
        intro c hc
        rw [List.mem_singleton.1 hc]
        exact hdigit lead List.mem_cons_self
      noLeadingZero := fun h => by rw [Option.some.inj h]
      fraction_ne_nil := fun digits hdigits => (hmem digits hdigits).1 ▸ (hmem digits hdigits).2
      fraction_isDigit := by
        intro digits hdigits c hc
        rw [(hmem digits hdigits).1] at hc
        exact hdigit c (List.mem_cons_of_mem _ hc)
      units_eq := by
        rw [hfraction, List.singleton_append, hvalue]
        congr 1
        rw [Option.getD_some]
        omega
      marked := .inr rfl
      short := by
        rw [hfraction, List.length_append, List.length_singleton, maxDigits]
        omega }

/-- **Every decimal of a moderate number of digits is spelled by parts.** -/
theorem exists_spells : ∃ p : Parts, p.chars = d.spell decimalFormat ∧ p.Spells d := by
  rw [Decimal.spell]
  split
  · rename_i hplace
    rw [Bool.and_eq_true, decide_eq_true_eq, decide_eq_true_eq] at hplace
    obtain ⟨hleast, hgreatest⟩ := hplace
    rcases Int.lt_or_le d.exponent 0 with hneg | hnonneg
    · rcases Int.lt_or_le 0 d.place with hpoint | hfraction
      · exact exists_spells_point hpos hlen hneg hpoint
      · exact exists_spells_fraction hlen hneg hfraction hleast
    · exact exists_spells_whole hpos hlen hnonneg hgreatest
  · exact exists_spells_scientific hlen

end Decimal

/-! ### Numbers -/

/-- Zero is spelled like a whole number. -/
theorem spells_zero : Parts.Spells ⟨['0'], some ['0'], none⟩ ⟨0, 0⟩ where
  whole_ne_nil := by decide
  whole_isDigit := List.forall_mem_singleton.2 rfl
  noLeadingZero := fun _ => rfl
  fraction_ne_nil := by decide
  fraction_isDigit := by rintro _ ⟨⟩; exact List.forall_mem_singleton.2 rfl
  units_eq := by
    show Binary64.decimalUnits 0 (-1) = Binary64.decimalUnits 0 0
    simp [Binary64.decimalUnits]
  marked := .inl rfl
  short := by decide

/-- **Every finite number is spelled so that the same word is read.** -/
theorem exists_spelling {x : Binary64} (hfin : x.isFinite) : ∃ s : Spelling, s.WellFormed ∧
    utf8 (x.spell decimalFormat) = s.bytes ∧ s.numeral.value = .ok (.real x) := by
  have hlt : x.magnitude < Binary64.infinityMagnitude := of_decide_eq_true hfin
  rw [Binary64.spell]
  by_cases hzero : x.magnitude = 0
  · have hx : x.isZero = true := by rw [Binary64.isZero, hzero]; rfl
    refine ⟨_, spells_zero.wellFormed x.isNegative, ?_, spells_zero.value_eq hfin ?_⟩
    · rw [hx]
      exact Parts.utf8_chars ⟨['0'], some ['0'], none⟩ x.isNegative
    · rw [Numeral.toBinary64_eq (by rw [Parts.digits_spelling]; decide)]
      show Binary64.ofDecimal x.isNegative 0 0 = x
      rw [Binary64.ofDecimal, if_pos rfl, Binary64.signedZero, ← hzero, Binary64.ofParts_self]
  · have hx : x.isZero = false := by rw [Binary64.isZero, beq_eq_false_iff_ne]; exact hzero
    have hpos : 0 < x.magnitude := Nat.pos_of_ne_zero hzero
    have howns := Binary64.owns_shortest hpos hlt
    have hlen : (Nat.toDigits 10 (Binary64.shortest x.magnitude).digits).length ≤ 700 :=
      length_toDigits_le (by decide) (Binary64.digits_shortest_lt hpos hlt)
    obtain ⟨p, hchars, hp⟩ := exists_spells (Binary64.digits_pos_of_owns hpos howns) hlen
    refine ⟨_, hp.wellFormed x.isNegative, ?_, hp.value_eq hfin ?_⟩
    · rw [hx, ← Parts.utf8_chars, hchars]
      rfl
    · have hshort : (p.spelling x.isNegative).numeral.digits.length ≤ maxDigits := by
        rw [Parts.digits_spelling, length_utf8_of_isDigit hp.isDigit]
        exact hp.short
      rw [← hp.units_spelling x.isNegative] at howns
      rw [Numeral.toBinary64_of_owns hshort hpos hlt howns]
      exact Binary64.ofParts_self x

/-- The numbers that a reader can give. -/
def Number.Canonical : Number → Prop
  | .natural n => n < UInt64.size
  | .negative n => 0 < n ∧ n ≤ UInt64.size / 2
  | .real x => x.isFinite = true

/-- Digits alone are a whole number. -/
theorem wellFormed_whole (negative : Bool) (n : Nat) :
    Spelling.WellFormed ⟨negative, utf8 (Nat.toDigits 10 n), none, none⟩ where
  whole := digits_toDigits n
  noLeadingZero := noLeadingZero_utf8 isDigit_of_mem_digitsOfNat noLeadingZero_toDigits
  fraction := by rintro _ ⟨⟩
  exponent := by rintro _ ⟨⟩

theorem Number.Canonical.exists_spelling {n : Number} (h : n.Canonical) : ∃ s : Spelling,
    s.WellFormed ∧ utf8 n.render = s.bytes ∧ s.numeral.value = .ok n := by
  cases n with
  | natural n =>
    have hlt : n < UInt64.size := h
    refine ⟨_, wellFormed_whole false n, (List.append_nil _).symm, ?_⟩
    rw [Spelling.numeral, Numeral.value, natOfDigitBytes_toDigits]
    exact if_pos (decide_eq_true hlt)
  | negative n =>
    obtain ⟨hpos, hle⟩ := h
    refine ⟨_, wellFormed_whole true n, congrArg (45 :: ·) (List.append_nil _).symm, ?_⟩
    rw [Spelling.numeral, Numeral.value, natOfDigitBytes_toDigits]
    simp [hpos, hle]
  | real x => exact Json.exists_spelling h

/-- **A number that is written reads back.** -/
theorem readNumber_render {n : Number} (h : n.Canonical) {rest : Bytes} (hrest : EndsNumber rest) :
    readNumber (utf8 n.render ++ rest) = .ok (n, rest) := by
  obtain ⟨s, hs, hbytes, hvalue⟩ := h.exists_spelling
  show (scanNumeral _ >>= _) = _
  rw [hbytes, scanNumeral_bytes hs hrest]
  show (s.numeral.value >>= _) = _
  rw [hvalue]
  rfl

/-- The first byte of a number tells it from every other value. -/
theorem startsNumber_render {n : Number} (h : n.Canonical) (rest : Bytes) :
    startsNumber (utf8 n.render ++ rest) = true := by
  obtain ⟨s, hs, hbytes, -⟩ := h.exists_spelling
  rw [hbytes, Spelling.bytes]
  obtain ⟨b, others, hwhole⟩ := List.exists_cons_of_ne_nil hs.whole.ne_nil
  cases s.negative with
  | true => rfl
  | false =>
    have hb : isDigitByte b = true := hs.whole.all b (by rw [hwhole]; exact List.mem_cons_self)
    rw [hwhole]
    show (b == 45 || isDigitByte b) = true
    rw [hb, Bool.or_true]

end Json

end Superstep
