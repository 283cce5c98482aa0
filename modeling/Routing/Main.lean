import Routing.Cli.Command

/-!
# The command line program
-/

namespace Routing.Cli

/-- The cause of a failed reading. -/
def fileFault : IO.Error → Table.FileFault
  | .noFileOrDirectory .. | .noSuchThing .. => .missing
  | .inappropriateType _ 20 _ => .notDirectory
  | .inappropriateType .. => .directory
  | .invalidArgument _ 36 _ => .nameTooLong
  | e => .other (toString e)

/-- The content of a file, which must be text. -/
def readFile (path : String) : IO (Except Table.FileFault String) := do
  try
    let bytes ← IO.FS.readBinFile path
    return match String.fromUTF8? bytes with
      | some text => .ok text
      | none => .error .notText
  catch e => return .error (fileFault e)

/-- What is printed when a call is not understood. -/
def usage : String :=
  "Usage: match -r FILE PATH... | inspect -r FILE | bench -r FILE [-i N] [--warmup N] PATH..."

/-- Prints a response; a verbose call also prints its events, less those of single walks. -/
def printResponse (verbose : Bool) (r : Response) : IO UInt32 := do
  if verbose then
    for e in r.events do
      if e.level ≠ .trace then IO.eprintln e.render
  IO.print r.output
  match r.error with
  | some text => IO.eprintln text
  | none => pure ()
  return r.code.toUInt32

end Routing.Cli

open Routing.Cli in
def main (args : List String) : IO UInt32 := do
  match Command.parse? args with
  | none =>
    IO.eprintln usage
    printResponse false .misuse
  | some c => printResponse c.verbose (.ofResult (c.run (← readFile c.file)))
