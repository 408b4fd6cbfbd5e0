import Superstep.Json.Basic
import Superstep.Binary64.Decimal
import Superstep.Text.Lines

/-!
# The leaves of JSON text

Scanning goes over the bytes of a text from left to right and stops at the first fault. There are
three kinds of fault, and a reader of a file wants to know which one it met:

* `malformed`: the text breaks the grammar, a number is beyond every finite one, or values are
  nested too deeply;
* `truncated`: the text ends where it has to go on;
* `mismatched`: the text is fine so far, but what it says is not what the reader asked for.

This module has the parts without nesting: blanks, words, numbers and strings. `Bytes` is what
remains of the text; every function hands on what remains after it.
-/

namespace Superstep.Json

/-- What can be wrong with a text. -/
inductive Fault where
  | malformed
  | truncated
  | mismatched
deriving DecidableEq

/-- What remains of a text. -/
abbrev Bytes := List UInt8

/-- Takes something off the front of a text. -/
abbrev Reader (α : Type) := Bytes → Except Fault (α × Bytes)

def isBlankByte (b : UInt8) : Bool := b == 32 || b == 10 || b == 9 || b == 13

/-- The text from its first byte that is not blank. -/
def skipBlanks (s : Bytes) : Bytes := s.dropWhile isBlankByte

def isDigitByte (b : UInt8) : Bool := 48 ≤ b && b ≤ 57

/-- The natural number that decimal digits denote. -/
def natOfDigitBytes (digits : Bytes) : Nat :=
  digits.foldl (fun n b => 10 * n + (b.toNat - 48)) 0

/-- The rest of a word of which the text has to spell every letter. -/
def expectWord : List Char → Bytes → Except Fault Bytes
  | [], s => .ok s
  | _ :: _, [] => .error .truncated
  | c :: word, b :: s => if b.toNat = c.toNat then expectWord word s else .error .malformed

/-! ### Numbers

A number is a sign, a whole part without leading zeros, and optionally a fraction and an exponent,
each with at least one digit. `Numeral` keeps the parts apart. -/

/-- The parts of a number as written. -/
structure Numeral where
  negative : Bool
  whole : Bytes
  fraction : Option Bytes
  exponent : Option Int

/-- At least one digit, and what follows the run of digits. -/
def scanDigits (s : Bytes) : Except Fault (Bytes × Bytes) :=
  match s.takeWhile isDigitByte, s.dropWhile isDigitByte with
  | [], [] => .error .truncated
  | [], _ :: _ => .error .malformed
  | digits, rest => .ok (digits, rest)

/-- The whole part: a zero that no digit follows, or digits that start with another one. -/
def scanWhole (s : Bytes) : Except Fault (Bytes × Bytes) := do
  let (digits, rest) ← scanDigits s
  match digits with
  | 48 :: _ :: _ => .error .malformed
  | _ => .ok (digits, rest)

/-- A fraction, if a point is next. -/
def scanFraction : Bytes → Except Fault (Option Bytes × Bytes)
  | 46 :: s => (scanDigits s).map fun (digits, rest) => (some digits, rest)
  | s => .ok (none, s)

/-- The sign of an exponent. -/
def scanExponentSign : Bytes → Bool × Bytes
  | 45 :: s => (true, s)
  | 43 :: s => (false, s)
  | s => (false, s)

/-- An exponent, if its letter is next. -/
def scanExponent : Bytes → Except Fault (Option Int × Bytes)
  | [] => .ok (none, [])
  | b :: s =>
    if b == 101 || b == 69 then
      let (negative, s) := scanExponentSign s
      (scanDigits s).map fun (digits, rest) =>
        let n := natOfDigitBytes digits
        (some (if negative then -(n : Int) else n), rest)
    else .ok (none, b :: s)

/-- The sign of a number. -/
def scanSign : Bytes → Bool × Bytes
  | 45 :: s => (true, s)
  | s => (false, s)

/-- A number in its parts. -/
def scanNumeral : Reader Numeral := fun s => do
  let (negative, s) := scanSign s
  let (whole, s) ← scanWhole s
  let (fraction, s) ← scanFraction s
  let (exponent, s) ← scanExponent s
  .ok (⟨negative, whole, fraction, exponent⟩, s)

/-- Whether the text goes on like a number. -/
def startsNumber : Bytes → Bool
  | [] => false
  | b :: _ => b == 45 || isDigitByte b

/-- How many significant digits of a number are read one by one. No number halfway between two
binary64 neighbours has as many. -/
def maxDigits : Nat := 768

/-- Digits without the zeros at their end. -/
def dropLastZeros (digits : Bytes) : Bytes := (digits.reverse.dropWhile (· == 48)).reverse

/-- The significant digits of a numeral and the power of ten that the last of them counts. Zeros in
front are not significant, and neither are zeros at the end of a fraction. -/
def Numeral.significant (n : Numeral) : Bytes × Int :=
  let fraction := dropLastZeros (n.fraction.getD [])
  ((n.whole ++ fraction).dropWhile (· == 48), n.exponent.getD 0 - fraction.length)

/-- At most `maxDigits` digits. All digits behind them together count as a single one, whatever
they are: zeros at the end of a whole number, too, lift it above what stands before them. -/
def curtail (digits : Bytes) (exponent : Int) : Bytes × Int :=
  if digits.length ≤ maxDigits then (digits, exponent)
  else (digits.take maxDigits ++ [49], exponent + (digits.length - (maxDigits + 1) : Nat))

/-- The decimal that a numeral spells, curtailed, as the nearest binary64 number. -/
def Numeral.toBinary64 (n : Numeral) : Binary64 :=
  let (digits, exponent) := curtail n.significant.1 n.significant.2
  Binary64.ofDecimal n.negative (natOfDigitBytes digits) exponent

/-- The value of a numeral. Whole numbers that fit in sixty-four bits stay whole; the negative
zero is not one of them. A number beyond every finite one is not accepted. -/
def Numeral.value (n : Numeral) : Except Fault Number :=
  let whole := natOfDigitBytes n.whole
  if n.fraction.isNone && n.exponent.isNone && !n.negative && whole < UInt64.size then
    .ok (.natural whole)
  else if n.fraction.isNone && n.exponent.isNone && n.negative && 0 < whole &&
      whole ≤ UInt64.size / 2 then
    .ok (.negative whole)
  else
    let x := n.toBinary64
    if x.isFinite then .ok (.real x) else .error .malformed

/-- A number. -/
def readNumber : Reader Number := fun s => do
  let (numeral, s) ← scanNumeral s
  let value ← numeral.value
  .ok (value, s)

/-! ### Strings

The functions below start behind the opening quote. -/

/-- The value of a hexadecimal digit. -/
def hexValue? (b : UInt8) : Option Nat :=
  if isDigitByte b then some (b.toNat - 48)
  else if 97 ≤ b && b ≤ 102 then some (b.toNat - 87)
  else if 65 ≤ b && b ≤ 70 then some (b.toNat - 55)
  else none

/-- Four hexadecimal digits. -/
def readHex4 : Reader Nat
  | a :: b :: c :: d :: s =>
    match hexValue? a, hexValue? b, hexValue? c, hexValue? d with
    | some a, some b, some c, some d => .ok (((a * 16 + b) * 16 + c) * 16 + d, s)
    | _, _, _, _ => .error .malformed
  | _ => .error .truncated

/-- One given byte. -/
def expectByte (expected : UInt8) : Bytes → Except Fault Bytes
  | [] => .error .truncated
  | b :: s => if b = expected then .ok s else .error .malformed

/-- A code unit behind `\u`, and the second half of a surrogate pair behind a first half. -/
def readCodePoint : Reader Char := fun s => do
  let (high, s) ← readHex4 s
  if 0xDC00 ≤ high && high ≤ 0xDFFF then .error .malformed
  else if 0xD800 ≤ high && high ≤ 0xDBFF then
    let s ← expectByte 92 s
    let s ← expectByte 117 s
    let (low, s) ← readHex4 s
    if 0xDC00 ≤ low && low ≤ 0xDFFF then
      .ok (Char.ofNat (0x10000 + (high - 0xD800) * 0x400 + (low - 0xDC00)), s)
    else .error .malformed
  else .ok (Char.ofNat high, s)

/-- The character that a letter behind the backslash stands for, other than a code point. -/
def shortEscape? (b : UInt8) : Option Char :=
  if b == 34 then some '"'
  else if b == 92 then some '\\'
  else if b == 47 then some '/'
  else if b == 98 then some '\x08'
  else if b == 102 then some '\x0c'
  else if b == 110 then some '\n'
  else if b == 114 then some '\r'
  else if b == 116 then some '\t'
  else none

/-- What follows a backslash. -/
def readEscape : Reader Char
  | [] => .error .truncated
  | b :: s =>
    if b == 117 then readCodePoint s
    else match shortEscape? b with
      | some c => .ok (c, s)
      | none => .error .malformed

/-- The bytes of a string up to its closing quote, escapes replaced. `fuel` bounds the number of
characters. -/
def readStringBytes : Nat → Reader Bytes
  | 0, _ => .error .truncated
  | _, [] => .error .truncated
  | fuel + 1, b :: s =>
    if b == 34 then .ok ([], s)
    else if b == 92 then do
      let (c, s) ← readEscape s
      let (text, s) ← readStringBytes fuel s
      .ok (Text.encode (String.singleton c) ++ text, s)
    else if b < 32 then .error .malformed
    else do
      let (text, s) ← readStringBytes fuel s
      .ok (b :: text, s)

/-- A string. Its bytes have to be UTF-8. -/
def readString : Reader String := fun s => do
  let (bytes, s) ← readStringBytes s.length s
  match Text.decode? bytes with
  | some text => .ok (String.ofList text, s)
  | none => .error .malformed

end Superstep.Json
