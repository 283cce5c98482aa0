import Routing.Text.Quoted

/-!
# Events

What the library reports about its work, each with its level.
-/

namespace Routing

/-- The levels of events, from the coarsest to the finest. -/
inductive Level where
  | info
  | debug
  | trace
deriving DecidableEq

def Level.name : Level → String
  | .info => "INFO"
  | .debug => "DEBUG"
  | .trace => "TRACE"

/-- What the library has done or found. -/
inductive Event where
  | loaded (count : Nat) (file : String)
  /-- A position was frozen; the rest tells what it holds. -/
  | created (label : String) (handler : Bool) (literals : Nat) (param wildcard : Bool)
  /-- The tree of one label is laid over the tree of another. -/
  | merging (incoming base : String)
  | composing (count : Nat)
  | builtRoute (route : String)
  /-- A plan was built into a tree with a number of literal children. -/
  | builtPlan (literals : Nat)
  /-- A walk has ended because a parameter rejects a segment. -/
  | rejected (segment param label : String)
  /-- A walk has ended because no child takes a segment. -/
  | unmatched (label segment : String)
  /-- A walk has arrived. -/
  | resolved (count : Nat) (label : String)
deriving DecidableEq

namespace Event

/-- Tables are reported at the coarsest level, the making of trees below it and walks last. -/
def level : Event → Level
  | .loaded .. => .info
  | .created .. | .merging .. | .composing _ | .builtRoute _ | .builtPlan _ => .debug
  | .rejected .. | .unmatched .. | .resolved .. => .trace

def flag (b : Bool) : String := if b then "true" else "false"

/-- What is printed of an event behind its level. -/
def message : Event → String
  | .loaded count file => "loaded " ++ toString count ++ " routes from '" ++ file ++ "'"
  | .created label handler literals param wildcard =>
    "creating node " ++ label ++ ": handler=" ++ flag handler ++ ", literals=" ++
      toString literals ++ ", parametric=" ++ flag param ++ ", wildcard=" ++ flag wildcard
  | .merging incoming base => "merging route tree " ++ incoming ++ " into " ++ base
  | .composing count => "composing " ++ toString count ++ " routes"
  | .builtRoute route => "built single route " ++ route
  | .builtPlan literals =>
    "built route tree with " ++ toString literals ++ " top-level literals"
  | .rejected segment param label =>
    "segment " ++ Text.quoted segment ++ " rejected by parameter " ++ param ++ " at " ++ label
  | .unmatched label segment =>
    "no child of " ++ label ++ " accepts segment " ++ Text.quoted segment
  | .resolved count label =>
    "resolved " ++ toString count ++ " segments to " ++ label

/-- The level, a space and the message. -/
def render (e : Event) : String := e.level.name ++ " " ++ e.message

end Event

end Routing
