import Superstep.CommandLine

/-!
# The program

The outermost layer: arguments and files of the system, what happened on standard error, and the
exit code.
-/

namespace Superstep

/-- What the system reports, as a fault of a file. -/
def ioFaultOf : IO.Error → IoFault
  | .noFileOrDirectory _ _ _ => .notFound
  | .inappropriateType _ _ _ => .isADirectory
  | other => .other (toString other)

/-- Runs an action of the system and keeps its error as a value. -/
def attempt {α : Type} (action : IO α) : IO (Except IoFault α) := do
  match ← action.toBaseIO with
  | .ok a => return .ok a
  | .error e => return .error (ioFaultOf e)

instance : Files IO where
  read path := attempt do
    let content ← IO.FS.readBinFile path
    return content.toList
  write path content := attempt (IO.FS.writeBinFile path ⟨content.toArray⟩)

/-- A line about an event. -/
def eventLine (event : Event) : String :=
  event.figures.foldl (fun line figure => line ++ " " ++ figure.1 ++ "=" ++ toString figure.2)
    event.message

end Superstep

open Superstep in
/-- Does what the arguments ask for. -/
def main (arguments : List String) : IO UInt32 := do
  match CommandLine.read arguments with
  | .help =>
    IO.print CommandLine.usage
    return 0
  | .misuse fault =>
    IO.eprintln ("error: " ++ fault.message)
    return CommandLine.misuseCode
  | .query config =>
    let (events, result) ← Query.run config
    for event in events do
      IO.eprintln (eventLine event)
    match result with
    | .ok _ => pure ()
    | .error failure => IO.eprintln failure.message
    return CommandLine.exitCode result
