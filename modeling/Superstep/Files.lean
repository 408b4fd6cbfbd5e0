import Superstep.Error

/-!
# Files

A query reads files and writes files, and that is all it wants of the world. `Files` names the two
operations, so a query can run wherever they can be carried out. `Directory` carries them out
without any world: it is a finite tree of files under a working directory.
-/

namespace Superstep

/-- A place with files. -/
class Files (m : Type → Type) where
  /-- The whole content of a file. -/
  read : String → m (Except IoFault (List UInt8))
  /-- Gives a file that content, whether it existed or not. -/
  write : String → List UInt8 → m (Except IoFault Unit)

/-! ### Paths

A path is walked step by step. Every step but the last has to lead to a directory, also a step to
the same place (`.`) or back up (`..`). A step has 255 bytes at most, and a path fewer than 4096. -/

/-- Whether no file can have a name because of its length. -/
def isLongStep (step : String) : Bool := 255 < step.utf8ByteSize

/-- What is wrong with a path wherever it is followed. -/
def pathFault? (path : String) : Option IoFault :=
  if path.contains '\x00' then some .badName
  else if 4096 ≤ path.utf8ByteSize then some .nameTooLong
  else none

/-- The steps of a path. -/
def pathSteps (path : String) : List String := (path.splitOn "/").filter (· != "")

/-- Whether a path demands a directory by a slash at its end. -/
def demandsDirectory (path : String) : Bool := path.endsWith "/"

/-- A place, by the names that lead to it from the working directory. Places above that begin with
`..`, and a place that is named from the root begins with `/`. -/
abbrev Place := List String

namespace Place

/-- Where a path starts. -/
def startOf (path : String) : Place := if path.startsWith "/" then ["/"] else []

/-- Whether there is nothing but steps up, so that the place is a directory for sure. -/
def isAbove (place : Place) : Bool := place.all (· == "..")

/-- The place that one step leads to. -/
def enter (place : Place) (step : String) : Place :=
  if step == "." then place
  else if step == ".." then
    if place == ["/"] then place
    else if place.isAbove then place ++ [".."]
    else place.dropLast
  else place ++ [step]

end Place

/-! ### A directory as a value -/

/-- A working directory and the files below it. A directory exists if it is the working directory,
lies above it, or has a file below it. -/
structure Directory where
  files : List (Place × List UInt8) := []

namespace Directory

/-- The content of a file. -/
def find? (d : Directory) (place : Place) : Option (List UInt8) :=
  (d.files.find? fun file => file.1 == place).map Prod.snd

/-- Whether there is a directory at a place. -/
def isDirectory (d : Directory) (place : Place) : Bool :=
  place == ["/"] || place.isAbove ||
    d.files.any fun file => place.isPrefixOf file.1 && place.length < file.1.length

/-- Puts a file in place of the one there, or adds it. -/
def put (d : Directory) (place : Place) (content : List UInt8) : Directory :=
  if (d.find? place).isSome then
    ⟨d.files.map fun file => if file.1 == place then (place, content) else file⟩
  else ⟨d.files ++ [(place, content)]⟩

/-- Where steps lead from a place, if all places on the way are directories. -/
def walk (d : Directory) (place : Place) : List String → Except IoFault Place
  | [] => .ok place
  | step :: rest =>
    if d.isDirectory place then
      if isLongStep step then .error .nameTooLong else d.walk (place.enter step) rest
    else .error (if (d.find? place).isSome then .notADirectory else .notFound)

/-- The place that a path names. -/
def locate (d : Directory) (path : String) : Except IoFault Place :=
  match pathFault? path with
  | some fault => .error fault
  | none => d.walk (Place.startOf path) (pathSteps path)

def read (d : Directory) (path : String) : Except IoFault (List UInt8) := do
  let place ← d.locate path
  match d.find? place with
  | some content => if demandsDirectory path then .error .notADirectory else .ok content
  | none => .error (if d.isDirectory place then .isADirectory else .notFound)

def write (d : Directory) (path : String) (content : List UInt8) : Except IoFault Directory := do
  let place ← d.locate path
  if d.isDirectory place || demandsDirectory path then .error .isADirectory
  else .ok (d.put place content)

instance : Files (StateM Directory) where
  read path := fun d => (d.read path, d)
  write path content := fun d =>
    match d.write path content with
    | .ok d => (.ok (), d)
    | .error fault => (.error fault, d)

end Directory

end Superstep
