import Dissection.CommandLine
import Std.Time.Format

/-!
# The program

Looks up what the arguments mention, and writes what the session writes.
-/

namespace Dissection.CommandLine

/-- The name that the program is called by. -/
def programName : Text := "linedissect"

/-- What is found at a path. -/
def lookUp (path : Text) : IO File := do
  try
    return .content (← IO.FS.readBinFile (String.ofList path)).toList
  catch
    | .noFileOrDirectory .. => return .missing
    | .inappropriateType .. => return .directory
    | e => throw e

/-- What arguments name.  The lines of the standard input end in line feeds only. -/
def lookAround (arguments : List Text) : IO Places := do
  let found ← (Customary.paths arguments).mapM fun path => return (path, ← lookUp path)
  let input ← if Customary.readsInput arguments then (← IO.getStdin).readBinToEnd else pure .empty
  return {
    files := fun path => (found.lookup path).getD .missing
    input := input.toList
    inputEnds := .lineFeed }

/-- What the environment says about logging. -/
def lookUpEnvironment : IO Log.Environment :=
  return {
    level := (← IO.getEnv "LINEDISSECT_LOG_LEVEL").map String.toList
    debug := (← IO.getEnv "DEBUG").map String.toList }

/-- The time as log lines show it. -/
def currentTime : IO Text :=
  return ((← Std.Time.PlainDateTime.now).format "uuuu-MM-dd HH:mm:ss.SSS").toList

/-- Writes something where it belongs. -/
def Output.put (echo : Text → Text) (output : Output) : IO Unit := do
  let time ← if output.channel = .errors then currentTime else pure []
  let text := String.ofList (output.written echo time)
  match output.channel with
  | .output => IO.print text
  | .errors => IO.eprint text

end Dissection.CommandLine

open Dissection CommandLine in
/-- Runs the program. -/
def main (arguments : List String) : IO UInt32 := do
  let arguments := arguments.map String.toList
  let places ← lookAround arguments
  let around : Surroundings := { places with environment := ← lookUpEnvironment }
  let s := session programName around arguments
  for output in s.outputs do output.put around.shell.echo
  if let .breakdown b := s.ending then IO.eprintln (String.ofList b.message)
  return s.ending.code.toUInt32
