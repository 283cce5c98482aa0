import Routing.Cli.Argument
import Routing.Table.Entry
import Routing.Table.Listing
import Routing.Table.Tally
import Routing.Text.Integer

/-!
# Commands

A command names a file with a route table and what to do with it: report the matches of paths, list
the tree, or tally repeated look-ups. An option may be given once; the option for verbosity may
stand once in front of the command's name and once behind it.
-/

namespace Routing.Cli

/-- What to do with the tree of a table. -/
inductive Action where
  | report (paths : List String)
  | list
  | tally (iterations warmup : Nat) (paths : List String)

/-- A call of the program that was understood. -/
structure Command where
  verbose : Bool
  file : String
  action : Action

namespace Command

/-- The names of commands, with the options that each allows. -/
inductive Verb where
  | report
  | list
  | tally

/-- The command of a name. -/
def Verb.ofName? : String → Option Verb
  | "match" => some .report
  | "inspect" => some .list
  | "bench" => some .tally
  | _ => none

/-- The options that a command understands. -/
def Verb.allowed : Verb → List Opt
  | .report | .list => [.verbose, .routes]
  | .tally => [.verbose, .routes, .iterations, .warmup]

/-- The file named by the items, once and not empty. -/
def file? (items : List Item) : Option String :=
  match settings .routes items with
  | [file] => if file = "" then none else some file
  | _ => none

/-- The count that an option sets, at most once. -/
def count? (o : Opt) (default : Nat) (items : List Item) : Option Nat :=
  match settings o items with
  | [] => some default
  | [text] => Text.readCount? text
  | _ => none

/-- The operands, which must be paths, at least one. -/
def paths? (items : List Item) : Option (List String) :=
  match operands items with
  | [] => none
  | paths => some paths

/-- What a command is asked to do by the items behind its name. -/
def action? (items : List Item) : Verb → Option Action
  | .report => (paths? items).map .report
  | .list => if operands items = [] then some .list else none
  | .tally => do
    let iterations ← count? .iterations 100000 items
    let warmup ← count? .warmup 1000 items
    let paths ← paths? items
    return .tally iterations warmup paths

/-- The command that items make, where verbosity may be asked for once more. -/
def ofItems? (verbose : Bool) (verb : Verb) (items : List Item) : Option Command := do
  if flagCount .verbose items > 1 then none
  let file ← file? items
  let action ← action? items verb
  return ⟨verbose || flagCount .verbose items = 1, file, action⟩

/-- Reads what stands from the command's name on. -/
def parseVerb? (verbose : Bool) (name : String) (args : List String) : Option Command := do
  let verb ← Verb.ofName? name
  let items ← readArguments verb.allowed args
  ofItems? verbose verb items

/-- Reads arguments, of which those in front of the command's name may ask for verbosity once. -/
def parseAfter? (verbose : Bool) : List String → Option Command
  | [] => none
  | arg :: rest =>
    match readArgument [.verbose] arg with
    | .items [.operand name] => parseVerb? verbose name rest
    | .items [.flag _] => if verbose then none else parseAfter? true rest
    | _ => none

/-- Reads a call of the program. -/
def parse? (args : List String) : Option Command := parseAfter? false args

/-! ### Running -/

/-- What an action prints for a tree. -/
def perform (t : Tree Names) : Action → Except Table.Fault String
  | .report paths => .ok (String.join (paths.map fun path => Table.reportPath t path ++ "\n"))
  | .list => .ok (Table.listing t)
  | .tally iterations _ paths => do
    let tally ← Table.tally t iterations paths
    return "Matched " ++ toString tally.matched ++ " of " ++ toString tally.lookups ++
      " lookups\n"

/-- Runs a command on the content of its file; the result is what it prints. -/
def run (c : Command) (content : Except Table.FileFault String) : Logged Table.Fault String := do
  let text ← .ofExcept (content.mapError (.unreadable c.file))
  let entries ← .ofExcept (Table.parse text)
  let t ← .after (.loaded entries.length c.file) (Table.build entries)
  .ofExcept (perform t c.action)

end Command

/-- What a call of the program leaves behind. -/
structure Response where
  code : Nat
  output : String
  error : Option String
  events : List Event

namespace Response

/-- The response to arguments that are no command. -/
def misuse : Response := ⟨2, "", none, []⟩

/-- The response to a command that was run. -/
def ofResult (r : Logged Table.Fault String) : Response :=
  match r.result with
  | .ok output => ⟨0, output, none, r.events⟩
  | .error fault => ⟨1, "", some ("Error: " ++ fault.message), r.events⟩

end Response

/-- The response to a call, where `read` gives the content of a file. -/
def respond (read : String → Except Table.FileFault String) (args : List String) : Response :=
  match Command.parse? args with
  | none => .misuse
  | some c => .ofResult (c.run (read c.file))

end Routing.Cli
