/-!
# Binary64 numbers by exact arithmetic

A `Binary64` is a 64-bit word of the IEEE 754 binary64 format. The word itself is the value: two
NaNs with different words are different, and so are the two zeros. That is what a total order on
all words and a bit-exact answer need.

## How the operations are defined

Every finite number is an integer multiple of `2 ^ -1074`, the least positive one. `units` gives
that integer for a magnitude, so a sum, a product or a quotient is an exact ratio of natural
numbers, and `nearest` rounds that ratio once, halves to the even neighbour. Nothing else in the
library rounds: reading a decimal goes through the same function.

* `nearest num den` is the magnitude closest to `num / den` units.
* Zeros and infinities follow the standard. An invalid operation (`∞ - ∞`, `0 * ∞`, `0 / 0`,
  `∞ / ∞`) gives the quiet NaN with the sign bit set; an operand that is a NaN is handed on with
  its quiet bit set, the left one first.
* `<` is the numerical order: no NaN is below or above anything, and the zeros are equal.
* `totalKey` orders all words: negative NaNs, negative numbers, positive numbers, positive NaNs.
-/

namespace Superstep

/-- A number of the IEEE 754 binary64 format, as its 64-bit word. -/
structure Binary64 where
  /-- Sign bit, eleven exponent bits, fifty-two fraction bits. -/
  bits : UInt64
deriving DecidableEq

namespace Binary64

/-! ### The parts of a word

The sign is the top bit. The other sixty-three bits, read as one natural number, grow with the
magnitude of the number they encode; everything below works on that number. -/

/-- The word with the given sign and magnitude bits. -/
def ofParts (negative : Bool) (magnitude : Nat) : Binary64 :=
  ⟨UInt64.ofNat (if negative then 0x8000000000000000 + magnitude else magnitude)⟩

/-- The sign bit. -/
def isNegative (x : Binary64) : Bool := 0x8000000000000000 ≤ x.bits.toNat

/-- The word without its sign bit. -/
def magnitude (x : Binary64) : Nat := x.bits.toNat % 0x8000000000000000

/-- The magnitude of the infinities. A finite number lies below it, a NaN above. -/
def infinityMagnitude : Nat := 0x7FF0000000000000

def isNaN (x : Binary64) : Bool := infinityMagnitude < x.magnitude

def isInfinite (x : Binary64) : Bool := x.magnitude == infinityMagnitude

def isFinite (x : Binary64) : Bool := x.magnitude < infinityMagnitude

def isZero (x : Binary64) : Bool := x.magnitude == 0

/-- The zero of the given sign. -/
def signedZero (negative : Bool) : Binary64 := ofParts negative 0

/-- The infinity of the given sign. -/
def infinity (negative : Bool) : Binary64 := ofParts negative infinityMagnitude

/-- The quiet NaN without payload and with a clear sign bit. -/
def positiveNaN : Binary64 := ⟨0x7FF8000000000000⟩

/-- What an invalid operation gives: the quiet NaN whose sign bit is set. -/
def invalid : Binary64 := ⟨0xFFF8000000000000⟩

/-- A NaN with its quiet bit set. -/
def quiet (x : Binary64) : Binary64 := ⟨x.bits ||| 0x0008000000000000⟩

/-! ### Exact values

A magnitude stands for a whole number of units, a unit being `2 ^ -1074`. Subnormal magnitudes
count the units directly; above them each binade doubles the distance between neighbours. -/

/-- How many units the magnitude `m` stands for. The infinite magnitude stands for `2 ^ 1024`. -/
def units (m : Nat) : Nat :=
  if m / 0x10000000000000 = 0 then m
  else (0x10000000000000 + m % 0x10000000000000) <<< (m / 0x10000000000000 - 1)

/-- The exact value of a finite number, in units. -/
def signedUnits (x : Binary64) : Int :=
  if x.isNegative then -(units x.magnitude : Int) else (units x.magnitude : Int)

/-- One, in units. -/
def unitsOfOne : Nat := 1 <<< 1074

/-- `num / den` to the nearest natural number, a half to the even neighbour. -/
def roundHalfEven (num den : Nat) : Nat :=
  let whole := num / den
  let twice := 2 * (num % den)
  if twice < den then whole
  else if den < twice then whole + 1
  else whole + whole % 2

/-- The magnitude nearest to `num / den` units. Below `2 ^ 53` units neighbours are one unit
apart; above, they are `2 ^ spread` units apart, so the quotient keeps fifty-three digits. A
quotient that rounds up to the next power of two carries into the exponent by itself. -/
def nearest (num den : Nat) : Nat :=
  let spread := (num / den).log2 - 52
  min (spread * 0x10000000000000 + roundHalfEven num (den <<< spread)) infinityMagnitude

/-- The number nearest to `num / den` units, with the given sign. -/
def round (negative : Bool) (num den : Nat) : Binary64 := ofParts negative (nearest num den)

/-! ### Arithmetic -/

/-- The NaN that an operation hands on when one of its operands is a NaN. -/
def handOn (x y : Binary64) : Binary64 := if x.isNaN then x.quiet else y.quiet

/-- The sum of two finite numbers. An exact zero is positive unless both summands are negative. -/
def addFinite (x y : Binary64) : Binary64 :=
  let sum := x.signedUnits + y.signedUnits
  if sum = 0 then signedZero (x.isNegative && y.isNegative) else round (sum < 0) sum.natAbs 1

def add (x y : Binary64) : Binary64 :=
  if x.isNaN || y.isNaN then handOn x y
  else if x.isInfinite then
    if y.isInfinite && x.isNegative != y.isNegative then invalid else x
  else if y.isInfinite then y
  else addFinite x y

/-- The number with the other sign. -/
def neg (x : Binary64) : Binary64 := ofParts (!x.isNegative) x.magnitude

def sub (x y : Binary64) : Binary64 :=
  if x.isNaN || y.isNaN then handOn x y else add x y.neg

def mul (x y : Binary64) : Binary64 :=
  let negative := x.isNegative != y.isNegative
  if x.isNaN || y.isNaN then handOn x y
  else if x.isInfinite || y.isInfinite then
    if x.isZero || y.isZero then invalid else infinity negative
  else round negative (units x.magnitude * units y.magnitude) unitsOfOne

def div (x y : Binary64) : Binary64 :=
  let negative := x.isNegative != y.isNegative
  if x.isNaN || y.isNaN then handOn x y
  else if x.isInfinite then if y.isInfinite then invalid else infinity negative
  else if y.isInfinite then signedZero negative
  else if y.isZero then if x.isZero then invalid else infinity negative
  else round negative (units x.magnitude <<< 1074) (units y.magnitude)

/-- The magnitude as a number of its own: the sign bit is cleared. -/
def abs (x : Binary64) : Binary64 := ofParts false x.magnitude

/-- The number nearest to `n`. -/
def ofNat (n : Nat) : Binary64 := round false (n <<< 1074) 1

/-- The number nearest to `n`. -/
def ofInt (n : Int) : Binary64 := round (n < 0) (n.natAbs <<< 1074) 1

instance : Zero Binary64 := ⟨⟨0⟩⟩
instance : One Binary64 := ⟨⟨0x3FF0000000000000⟩⟩
instance : Add Binary64 := ⟨add⟩
instance : Sub Binary64 := ⟨sub⟩
instance : Mul Binary64 := ⟨mul⟩
instance : Div Binary64 := ⟨div⟩
instance : NatCast Binary64 := ⟨ofNat⟩
instance : Inhabited Binary64 := ⟨0⟩

/-! ### Comparison -/

/-- Grows with the number, and is the same for both zeros. -/
def valueKey (x : Binary64) : Int :=
  if x.isNegative then -(x.magnitude : Int) else (x.magnitude : Int)

/-- The numerical order, which leaves the NaNs out. -/
def lt (x y : Binary64) : Prop := x.isNaN = false ∧ y.isNaN = false ∧ x.valueKey < y.valueKey

instance : LT Binary64 := ⟨lt⟩

instance : DecidableLT Binary64 := fun x y =>
  inferInstanceAs (Decidable (x.isNaN = false ∧ y.isNaN = false ∧ x.valueKey < y.valueKey))

/-- Numerical equality: a NaN equals nothing, and the zeros equal each other. -/
def sameValue (x y : Binary64) : Bool := !x.isNaN && !y.isNaN && x.valueKey == y.valueKey

/-- Grows along the total order of all words. The words of negative sign come first, larger
magnitudes before smaller ones, so negative NaNs open the order and positive NaNs close it. -/
def totalKey (x : Binary64) : Int :=
  if x.isNegative then -(x.magnitude : Int) - 1 else (x.magnitude : Int)

/-! ### Conversion to a small integer -/

/-- The number rounded towards zero and clamped to sixteen bits; a NaN gives zero. -/
def toUInt16 (x : Binary64) : UInt16 :=
  if x.isNaN || x.isNegative then 0
  else UInt16.ofNat (min (units x.magnitude / unitsOfOne) 65535)

end Binary64

end Superstep
