/-!
# Lines of a text

A line ends with a line feed, or with the text. A carriage return directly before the line feed
belongs to the end of the line; any other one is content. Text that ends with a line feed has no
empty line behind it.

Lines are cut from bytes, because a line is decoded on its own: one that is not UTF-8 leaves the
lines before it readable.
-/

namespace Superstep.Text

/-- What a byte does to the lines of the text after it. The flag says whether that text opens with
a line feed. -/
def lineStep (b : UInt8) : List (List UInt8) × Bool → List (List UInt8) × Bool
  | (rest, beforeFeed) =>
    if b = 10 then ([] :: rest, true)
    else if b = 13 && beforeFeed then (rest, false)
    else match rest with
      | [] => ([[b]], false)
      | line :: others => ((b :: line) :: others, false)

/-- The lines of a text, without what ended them. -/
def lines (text : List UInt8) : List (List UInt8) := (text.foldr lineStep ([], false)).1

/-- The characters of a UTF-8 byte sequence, or `none` if it is not one. -/
def decode? (bytes : List UInt8) : Option (List Char) :=
  (String.fromUTF8? ⟨bytes.toArray⟩).map String.toList

/-- The UTF-8 bytes of a text. -/
def encode (text : String) : List UInt8 := text.toUTF8.toList

end Superstep.Text
