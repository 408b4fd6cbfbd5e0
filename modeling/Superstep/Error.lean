import Superstep.Json.Scanner
import Superstep.Accumulator
import Superstep.Text.Quoted

/-!
# Errors

An `Error` is a condition that a careful caller may meet: a file that cannot be read, a text that
does not say what it should, an engine that does not fit its graph. A `Fault` is a broken term of
use. A `Failure` is either, and it is how an operation of the engine ends when it does
not succeed.

The constructors carry what the texts cite. `message` is the only place where the wording stands.
-/

namespace Superstep

/-- Why a file could not be read or written. -/
inductive IoFault where
  | notFound
  /-- The content is not UTF-8. -/
  | invalidData
  | isADirectory
  | notADirectory
  /-- A path, or one of its steps, has more bytes than a name can have. -/
  | nameTooLong
  /-- A path holds a character that no name can hold. -/
  | badName
  /-- Anything else the system reports. -/
  | other (text : String)
deriving DecidableEq

namespace IoFault

def message : IoFault → String
  | notFound => "entity not found"
  | invalidData => "stream did not contain valid UTF-8"
  | isADirectory => "is a directory"
  | notADirectory => "not a directory"
  | nameTooLong => "file name too long"
  | badName => "file name with a null character"
  | other text => text

end IoFault

/-- What is wrong with a line of an input file. -/
inductive LineFault where
  /-- One of the first two fields of an edge is not the number of a vertex. -/
  | badEdge (line : List Char)
  /-- An edge has fewer than two fields. -/
  | shortEdge (line : List Char)
  | badSourceCount (word : List Char)
  | badSource (word : List Char)
deriving DecidableEq

namespace LineFault

def message : LineFault → String
  | badEdge line => "invalid vertex id in " ++ Text.quoted line
  | shortEdge line => "expected two vertex ids, got " ++ Text.quoted line
  | badSourceCount word => "invalid source count " ++ Text.quoted word
  | badSource word => "invalid vertex id " ++ Text.quoted word

end LineFault

/-- Why a snapshot is not one. -/
inductive SnapshotFault where
  | empty (path : String)
  | tooManyVertices (declared : Nat)
  | vertexBeyond (id : VertexId) (declared : Nat)
  | vertexTwice (id : VertexId)
  | edgeLeaves (source target : VertexId)
  | vertexMissing (index : Nat)
  | edgeCount (declared found : Nat)
  /-- A vertex program's own reason for not being saved. -/
  | refused (reason : String)
deriving DecidableEq

namespace SnapshotFault

def message : SnapshotFault → String
  | empty path => s!"{path} is empty"
  | tooManyVertices declared => s!"declared vertex count {declared} exceeds the id space"
  | vertexBeyond id declared => s!"vertex {id} beyond declared count {declared}"
  | vertexTwice id => s!"vertex {id} recorded twice"
  | edgeLeaves source target => s!"edge {source} -> {target} leaves the graph"
  | vertexMissing index => s!"vertex {index} missing"
  | edgeCount declared found => s!"header declares {declared} edges, found {found}"
  | refused reason => reason

end SnapshotFault

/-- What a careful caller may meet. -/
inductive Error where
  | io (path : String) (fault : IoFault)
  | json (fault : Json.Fault)
  | line (path : String) (number : Nat) (fault : LineFault)
  | notFinalized
  /-- The engine has slots for `expected` vertices, and the graph has `actual`. -/
  | vertexCountMismatch (expected actual : Nat)
  | snapshot (fault : SnapshotFault)
deriving DecidableEq

namespace Error

def jsonMessage : Json.Fault → String
  | .malformed => "malformed text"
  | .truncated => "unexpected end of text"
  | .mismatched => "value of another shape"

def message : Error → String
  | io path fault => "I/O error on " ++ path ++ ": " ++ fault.message
  | json fault => "serialization error: " ++ jsonMessage fault
  | line path number fault => s!"parse error in {path} line {number}: " ++ fault.message
  | notFinalized => "graph must be finalized before it is queried"
  | vertexCountMismatch expected actual =>
    s!"engine sized for {expected} vertices but the graph has {actual}"
  | snapshot fault => "snapshot error: " ++ fault.message

end Error

/-- How an operation of the engine can end without success. -/
inductive Failure where
  | error (cause : Error)
  | fault (cause : Fault)
deriving DecidableEq

namespace Failure

def isFault : Failure → Bool
  | error _ => false
  | fault _ => true

def message : Failure → String
  | error cause => cause.message
  | fault cause => cause.message

end Failure

end Superstep
