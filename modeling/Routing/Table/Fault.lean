import Routing.Fault

/-!
# Faults in the use of route tables
-/

namespace Routing.Table

/-- Why a file cannot be read as text. -/
inductive FileFault where
  | missing
  | directory
  | notDirectory
  | nameTooLong
  | notText
  | other (detail : String)
deriving DecidableEq

def FileFault.message : FileFault → String
  | .missing => "No such file or directory (os error 2)"
  | .directory => "Is a directory (os error 21)"
  | .notDirectory => "Not a directory (os error 20)"
  | .nameTooLong => "File name too long (os error 36)"
  | .notText => "stream did not contain valid UTF-8"
  | .other detail => detail

/-- Why a command gives nothing. -/
inductive Fault where
  | unreadable (file : String) (cause : FileFault)
  /-- The content of a file is no route table. -/
  | invalid
  | unbuilt (cause : Routing.Fault)
  | noPaths
  | noIterations
deriving DecidableEq

/-- What is printed of a fault, with its cause behind a colon. -/
def Fault.message : Fault → String
  | .unreadable file cause => "Failed to read '" ++ file ++ "': " ++ cause.message
  | .invalid => "Invalid route table"
  | .unbuilt cause => "Failed to build route tree: " ++ cause.message
  | .noPaths => "No paths specified"
  | .noIterations => "Iterations must be greater than zero"

end Routing.Table
