import Superstep.Graph.Basic
import Superstep.PageRank.VertexState

/-!
# Ranked results

The heaviest entries of a vector come first, in the total order of binary64 words, and entries of
one word by ascending vertex. Because that order is total on all words, NaNs and both zeros
included, there is exactly one ranking.

The results of a graph are one line per vertex with a vector that is not empty: the vertex, how
many entries follow, and these by rank.
-/

namespace Superstep.PageRank

/-- Whether an entry may stand before another one in a ranking. -/
def outranks (a b : VertexId × Binary64) : Bool :=
  b.2.totalKey < a.2.totalKey || (a.2.totalKey == b.2.totalKey && a.1 ≤ b.1)

/-- The first `k` entries by rank. -/
def topK (ppr : Sparse Binary64) (k : Nat) : List (VertexId × Binary64) :=
  (ppr.entries.mergeSort outranks).take k

/-- Words with one space between them. -/
def spaced (words : List (List Char)) : List Char :=
  match words with
  | [] => []
  | [word] => word
  | word :: rest => word ++ ' ' :: spaced rest

/-- The line of a vertex: its number, how many entries follow, and their vertices by rank. -/
def formatVertex? (id : VertexId) (ppr : Sparse Binary64) (k : Nat) : Option (List Char) :=
  if ppr.isEmpty then none
  else
    let ranked := topK ppr k
    some (spaced (Text.digitsOfNat id.toNat :: Text.digitsOfNat ranked.length ::
      ranked.map fun entry => Text.digitsOfNat entry.1.toNat))

/-- The lines of a graph, by ascending vertex. The number of vertices is read as a vertex here, so a
graph that has them all has no lines. -/
def resultLines (g : Graph (VertexState Binary64)) (k : Nat) : List (List Char) :=
  let bound : VertexId := UInt32.ofNat g.numVertices
  ((g.data.toList.take bound.toNat).mapIdx fun i state =>
    formatVertex? (UInt32.ofNat i) state.ppr k).filterMap id

/-- The text of lines, each ended by a line feed. -/
def textOfLines (lines : List (List Char)) : String :=
  String.ofList (lines.flatMap fun line => line ++ ['\n'])

end Superstep.PageRank
