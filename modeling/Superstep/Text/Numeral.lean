/-!
# Natural numbers in text

A natural number is read from a word that is all of it: an optional plus sign and at least one
decimal digit, leading zeros allowed. The word has to fit below a bound, which the caller gives.
-/

namespace Superstep.Text

/-- The natural number that a list of decimal digits denotes. -/
def natOfDigits (digits : List Char) : Nat :=
  digits.foldl (fun n c => 10 * n + (c.toNat - '0'.toNat)) 0

/-- The word without a leading plus sign. -/
def dropPlus : List Char → List Char
  | '+' :: rest => rest
  | word => word

/-- The natural number below `bound` that `word` denotes. -/
def natBelow? (bound : Nat) (word : List Char) : Option Nat :=
  let digits := dropPlus word
  if !digits.isEmpty && digits.all Char.isDigit && natOfDigits digits < bound then
    some (natOfDigits digits)
  else none

/-- The decimal digits of a natural number. -/
def digitsOfNat (n : Nat) : List Char := Nat.toDigits 10 n

end Superstep.Text
