import Superstep.Binary64.Basic
import Superstep.Text.Numeral

/-!
# Reading decimals

A decimal `digits * 10 ^ exponent` has one nearest `Binary64`. `Binary64.ofDecimal` finds it from
the exact ratio, so it makes no difference how many digits the decimal has or how it was written.
`Binary64.ofText?` is the grammar of a number given as a word on its own: digits with at most one
point among or beside them, an optional exponent, or one of the names of the special values.
-/

namespace Superstep

namespace Binary64

/-- The number nearest to `digits * 10 ^ exponent`. A positive `digits` with an exponent above
`400` is beyond every finite number, and one below `10 ^ -400` is nearer to zero than to any other
number, so the exact ratio is only formed between the two. -/
def ofDecimal (negative : Bool) (digits : Nat) (exponent : Int) : Binary64 :=
  if digits = 0 then signedZero negative
  else if 400 < exponent then infinity negative
  else if exponent < -(400 + (digits.log2 : Int)) then signedZero negative
  else round negative (digits * Nat.pow 10 exponent.toNat <<< 1074) (Nat.pow 10 (-exponent).toNat)

/-! ### A number as a word -/

/-- A leading sign, if there is one, and the rest. A missing sign is positive. -/
def splitSign : List Char → Bool × List Char
  | '-' :: rest => (true, rest)
  | '+' :: rest => (false, rest)
  | rest => (false, rest)

/-- The exponent that ends a number: nothing, or `e` with a sign at most and digits at least. -/
def exponentOfText? : List Char → Option Int
  | [] => some 0
  | c :: rest =>
    let (negative, digits) := splitSign rest
    if (c == 'e' || c == 'E') && !digits.isEmpty && digits.all Char.isDigit then
      some (if negative then -(Text.natOfDigits digits : Int) else Text.natOfDigits digits)
    else none

/-- An unsigned number: digits, a point before, among or after them, and an exponent. -/
def ofUnsigned? (negative : Bool) (text : List Char) : Option Binary64 :=
  let whole := text.takeWhile Char.isDigit
  let (fraction, rest) := match text.dropWhile Char.isDigit with
    | '.' :: rest => (rest.takeWhile Char.isDigit, rest.dropWhile Char.isDigit)
    | rest => ([], rest)
  if whole.isEmpty && fraction.isEmpty then none
  else (exponentOfText? rest).map fun exponent =>
    ofDecimal negative (Text.natOfDigits (whole ++ fraction)) (exponent - fraction.length)

/-- The number that `text` spells, if it spells one. The names of the special values may be in
either case, and every form may carry a sign. -/
def ofText? (text : String) : Option Binary64 :=
  let (negative, rest) := splitSign text.toList
  let name := String.ofList (rest.map Char.toLower)
  if name == "inf" || name == "infinity" then some (infinity negative)
  else if name == "nan" then some (if negative then positiveNaN.neg else positiveNaN)
  else ofUnsigned? negative rest

end Binary64

end Superstep
