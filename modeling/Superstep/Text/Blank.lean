/-!
# Blanks, trimming and fields

Blank characters are those with the Unicode property `White_Space`. `trim` takes them off both
ends of a line, and `fields` is the list of the longest runs of characters that are not blank.
-/

namespace Superstep.Text

/-- The characters of the Unicode property `White_Space`. -/
def isBlank (c : Char) : Bool :=
  let n := c.toNat
  (9 ≤ n && n ≤ 13) || n == 0x20 || n == 0x85 || n == 0xA0 || n == 0x1680 ||
    (0x2000 ≤ n && n ≤ 0x200A) || n == 0x2028 || n == 0x2029 || n == 0x202F || n == 0x205F ||
    n == 0x3000

/-- The line without the blanks at its ends. -/
def trim (line : List Char) : List Char :=
  ((line.dropWhile isBlank).reverse.dropWhile isBlank).reverse

/-- What a character does to the fields of the text after it. The flag says whether that text
opens with a field, which the character then joins. -/
def fieldStep (c : Char) : List (List Char) × Bool → List (List Char) × Bool
  | (words, joins) =>
    if isBlank c then (words, false)
    else match words, joins with
      | word :: others, true => ((c :: word) :: others, true)
      | words, _ => ([c] :: words, true)

/-- The longest runs of characters that are not blank, in order. -/
def fields (line : List Char) : List (List Char) := (line.foldr fieldStep ([], false)).1

end Superstep.Text
