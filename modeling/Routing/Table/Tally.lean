import Routing.Table.Fault
import Routing.Table.Report

/-!
# Tallies of repeated look-ups

A list of paths is looked up a number of times over; the tally counts the look-ups and those that
found a handler. A first number of passes only warms up and is not counted.
-/

namespace Routing.Table

/-- How many look-ups were made, and how many of them matched. -/
structure Tally where
  lookups : Nat
  matched : Nat
deriving DecidableEq

/-- The tally of a number of passes over paths; there must be a path and a pass. -/
def tally (t : Tree Names) (iterations : Nat) (paths : List String) : Except Fault Tally :=
  if paths = [] then .error .noPaths
  else if iterations = 0 then .error .noIterations
  else .ok {
    lookups := iterations * paths.length
    matched := iterations * paths.countP fun path => (match? t path).isSome }

/-- What a tally and the passes before it report. -/
def tallyEvents (t : Tree Names) (iterations warmup : Nat) (paths : List String) : List Event :=
  if paths = [] ∨ iterations = 0 then []
  else
    let pass := paths.map fun path => t.walkEvent (Path.segments path)
    (List.replicate (warmup + iterations) pass).flatten

end Routing.Table
