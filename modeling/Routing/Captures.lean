import Routing.Dict
import Routing.Param

/-!
# Captures

What a walk collects on its way: integers and texts by parameter name, in two separate name spaces,
and the segments that a wildcard took. A later value replaces an earlier one of its name and type.
-/

namespace Routing

/-- What was captured so far. -/
structure Captures where
  integers : Dict Int64 := []
  strings : Dict String := []
  wildcard : List String := []
deriving DecidableEq

namespace Captures

def empty : Captures := {}

/-- Stores an integer, in place of an earlier one of that name. -/
def addInt (name : String) (n : Int64) (c : Captures) : Captures :=
  { c with integers := Dict.insert name n c.integers }

/-- Stores a text, in place of an earlier one of that name. -/
def addText (name : String) (s : String) (c : Captures) : Captures :=
  { c with strings := Dict.insert name s c.strings }

/-- Stores a value under a name, in the name space of the value's type. -/
def add (name : String) (v : Value) (c : Captures) : Captures :=
  match v with
  | .int n => c.addInt name n
  | .text s => c.addText name s

/-- Puts segments behind those that a wildcard took before. -/
def addWildcard (segments : List String) (c : Captures) : Captures :=
  { c with wildcard := c.wildcard ++ segments }

/-- Reads a segment with a parameter and stores the value; nothing if the parameter rejects it. -/
def read? (p : Param) (segment : String) (c : Captures) : Option Captures :=
  (p.read segment).map fun v => c.add p.name v

def int? (name : String) (c : Captures) : Option Int64 := Dict.find? name c.integers

def text? (name : String) (c : Captures) : Option String := Dict.find? name c.strings

end Captures

end Routing
