import Superstep.Error
import Superstep.Event
import Superstep.Graph.Basic
import Superstep.Text.Blank
import Superstep.Text.Lines

/-!
# Edge lists

An edge list is a text with one edge per line: the source and the target as the first two fields,
whatever follows them. Blank lines are skipped, and so are comments, which start with `#` or `%`.
The first line that is none of these is the error.
-/

namespace Superstep.EdgeList

/-- The number of a vertex as a word. -/
def vertexId? (word : List Char) : Option VertexId :=
  (Text.natBelow? UInt32.size word).map UInt32.ofNat

/-- Whether a line, trimmed, says nothing. -/
def isComment : List Char → Bool
  | [] => true
  | c :: _ => c == '#' || c == '%'

/-- The edge that a line gives, if it gives one. -/
def readLine (line : List Char) : Except LineFault (Option Edge) :=
  let line := Text.trim line
  if isComment line then .ok none
  else match Text.fields line with
    | source :: target :: _ =>
      match vertexId? source, vertexId? target with
      | some source, some target => .ok (some ⟨source, target⟩)
      | _, _ => .error (.badEdge line)
    | _ => .error (.shortEdge line)

/-- What a line of bytes gives, as line `number` of a file. -/
def readBytes (path : String) (number : Nat) (bytes : List UInt8) : Except Error (Option Edge) :=
  match Text.decode? bytes with
  | none => .error (.io path .invalidData)
  | some line => (readLine line).mapError (.line path number)

/-- The edges of the lines from line `number` on, in order. -/
def readLines (path : String) (number : Nat) : List (List UInt8) → Except Error (List Edge)
  | [] => .ok []
  | bytes :: rest => do
    let edge ← readBytes path number bytes
    let edges ← readLines path (number + 1) rest
    .ok (edge.toList ++ edges)

/-- The edges of a text, in order. -/
def read (path : String) (content : List UInt8) : Except Error (List Edge) :=
  readLines path 1 (Text.lines content)

/-- The graph that an edge list gives, not finalized. -/
def load {D : Type} [Inhabited D] (path : String) (content : List UInt8) :
    Except Error (Graph D) :=
  (read path content).map Graph.empty.addEdges

end Superstep.EdgeList
