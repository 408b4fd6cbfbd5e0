import Superstep.Binary64.Basic

/-!
# The shortest decimal of a number

A finite number `x` owns an interval of reals: those that round to it. Its ends are the midpoints
to its two neighbours, and they belong to it when the last fraction bit of `x` is clear, because a
tie goes to the even neighbour. `Binary64.shortest` finds the decimal of fewest digits in that
interval, and of several with as many digits the one nearest to `x`.

The search tries the grids `10 ^ k` from coarse to fine. If any point of a grid lies in the
interval, so does one of the two that enclose `x`, so only these two are tested. All comparisons
are between natural numbers, in halves of a unit times the grid's denominator.

How a decimal is then spelled (`DecimalFormat`) is the choice of whoever writes it.
-/

namespace Superstep

/-- The decimal `digits * 10 ^ exponent`. -/
structure Decimal where
  digits : Nat
  exponent : Int
deriving DecidableEq

namespace Binary64

/-- `10 ^ k` units' worth of one, as a ratio: numerator and denominator. -/
def gridStep (k : Int) : Nat × Nat :=
  (unitsOfOne * Nat.pow 10 k.toNat, Nat.pow 10 (-k).toNat)

/-- Whether `digits * 10 ^ k` rounds to the magnitude `m`. -/
def ownsDecimal (m : Nat) (k : Int) (digits : Nat) : Bool :=
  let (num, den) := gridStep k
  let point := 2 * digits * num
  let low := (units (m - 1) + units m) * den
  let high := (units m + units (m + 1)) * den
  if m % 2 = 0 then low ≤ point && point ≤ high else low < point && point < high

/-- The decimal on the grid `10 ^ k` that rounds to the magnitude `m` and is nearest to it; of two
that are equally near, the even one. -/
def onGrid? (m : Nat) (k : Int) : Option Decimal :=
  let (num, den) := gridStep k
  let below := units m * den / num
  let remainder := units m * den % num
  match ownsDecimal m k below, ownsDecimal m k (below + 1) with
  | false, false => none
  | true, false => some ⟨below, k⟩
  | false, true => some ⟨below + 1, k⟩
  | true, true =>
    if 2 * remainder < num || (2 * remainder == num && below % 2 == 0) then some ⟨below, k⟩
    else some ⟨below + 1, k⟩

/-- At least the exponent of the leading decimal digit of the magnitude `m`, by at most two. -/
def topExponent (m : Nat) : Int := (((units m).log2 : Int) - 1074) * 30103 / 100000 + 1

/-- The shortest decimal that rounds to the finite positive magnitude `m`. Seventeen digits always
suffice, so twenty grids from the top are enough; the exact value stands behind them. -/
def shortest (m : Nat) : Decimal :=
  ((List.range 20).findSome? fun (i : Nat) => onGrid? m (topExponent m - i)).getD
    ⟨units m * Nat.pow 5 1074, -1074⟩

end Binary64

/-! ### Spelling a decimal -/

/-- Where positional spelling ends. The place of a decimal is the power of ten just above its
leading digit; decimals whose place lies between the two bounds are spelled with a point. -/
structure DecimalFormat where
  /-- The least place that is still spelled with a point. -/
  leastPlace : Int
  /-- The greatest place that is still spelled with a point. -/
  greatestPlace : Int

namespace Decimal

/-- The power of ten just above the leading digit. -/
def place (d : Decimal) : Int := (Nat.toDigits 10 d.digits).length + d.exponent

/-- The decimal with a point and at least one digit on either side of it. -/
def positional (d : Decimal) : List Char :=
  let digits := Nat.toDigits 10 d.digits
  if 0 ≤ d.exponent then
    digits ++ List.replicate d.exponent.toNat '0' ++ ['.', '0']
  else if 0 < d.place then
    digits.take d.place.toNat ++ '.' :: digits.drop d.place.toNat
  else
    '0' :: '.' :: List.replicate (-d.place).toNat '0' ++ digits

/-- The decimal with one digit before the point, no point without a digit after it, and a signed
exponent. -/
def scientific (d : Decimal) : List Char :=
  let digits := Nat.toDigits 10 d.digits
  let significand := match digits with
    | lead :: tail@(_ :: _) => lead :: '.' :: tail
    | lone => lone
  let power := d.place - 1
  significand ++ 'e' :: (if power < 0 then '-' else '+') :: Nat.toDigits 10 power.natAbs

/-- The spelling of a decimal in a format. -/
def spell (format : DecimalFormat) (d : Decimal) : List Char :=
  if format.leastPlace ≤ d.place && d.place ≤ format.greatestPlace then d.positional
  else d.scientific

end Decimal

/-- The shortest spelling of a finite number; zero is spelled like any whole number. -/
def Binary64.spell (format : DecimalFormat) (x : Binary64) : List Char :=
  let digits := if x.isZero then ['0', '.', '0'] else (shortest x.magnitude).spell format
  if x.isNegative then '-' :: digits else digits

end Superstep
