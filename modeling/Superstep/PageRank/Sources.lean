import Superstep.Error
import Superstep.Event
import Superstep.Text.Blank
import Superstep.Text.Lines

/-!
# Source lists

A source list is a text of words: how many sources follow, and then their vertices, however spread
over lines. At most `maxSources` of them are taken, and a list may well hold fewer than it
announces. What stands behind the words that are taken is not looked at.
-/

namespace Superstep.PageRank.Sources

/-- The words of a text with the numbers of their lines, or `none` if it is not UTF-8. -/
def numberedWords? (content : List UInt8) : Option (List (Nat × List Char)) :=
  ((Text.lines content).mapM Text.decode?).map fun lines =>
    (lines.mapIdx fun i line => (Text.fields line).map (i + 1, ·)).flatten

/-- The vertices that words name. -/
def vertices (path : String) : List (Nat × List Char) → Except Error (List VertexId)
  | [] => .ok []
  | (line, word) :: rest =>
    match Text.natBelow? UInt32.size word with
    | none => .error (.line path line (.badSource word))
    | some n => do
      let others ← vertices path rest
      .ok (UInt32.ofNat n :: others)

/-- Reads a source list. The events come first, because there are some also if the list turns out
to be wrong. -/
def read (path : String) (content : List UInt8) (maxSources : Nat) :
    List Event × Except Error VertexSet :=
  match numberedWords? content with
  | none => ([], .error (.io path .invalidData))
  | some [] => ([], .ok VertexMap.empty)
  | some ((line, word) :: rest) =>
    match Text.natBelow? countLimit word with
    | none => ([], .error (.line path line (.badSourceCount word)))
    | some announced =>
      let events := if maxSources < announced then [.truncatedSources announced maxSources] else []
      (events, (vertices path (rest.take (min announced maxSources))).map VertexSet.ofList)

end Superstep.PageRank.Sources
