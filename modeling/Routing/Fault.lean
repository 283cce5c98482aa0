import Routing.Text.Quoted

/-!
# Faults in the making of routes
-/

namespace Routing

/-- What is wrong with a route or with the pattern of one. -/
inductive RouteFault where
  | wildcardNotLast
  | emptyName
  | unknownKind (kind : String)
  | invalidCharacters (segment : String)
deriving DecidableEq

/-- The reason as it stands in the message of a fault. -/
def RouteFault.message : RouteFault → String
  | .wildcardNotLast => "wildcard must be the last segment"
  | .emptyName => "parameter name is empty"
  | .unknownKind kind => "unknown parameter type " ++ Text.quoted kind
  | .invalidCharacters segment =>
    "segment " ++ Text.quoted segment ++ " contains invalid characters"

/-- Why a draft refuses a call, or why no tree is made. -/
inductive Fault where
  | invalidSegment (segment : String)
  | duplicateParam
  | duplicateWildcard
  /-- A parameter without a position behind it, or the reverse. -/
  | incompleteParam
  | nothingToMerge
  | invalidPattern (pattern : String) (reason : RouteFault)
deriving DecidableEq

/-- What is printed of a fault; the text at fault is quoted. -/
def Fault.message : Fault → String
  | .invalidSegment segment =>
    "Path segment " ++ Text.quoted segment ++ " contains invalid characters"
  | .duplicateParam => "Cannot assign parametric child, already has one"
  | .duplicateWildcard => "Cannot assign wildcard child, already has one"
  | .incompleteParam =>
    "Parametric segment and child node must be either both present or both absent"
  | .nothingToMerge => "Cannot merge an empty sequence of route trees"
  | .invalidPattern pattern reason =>
    "Invalid route pattern " ++ Text.quoted pattern ++ ": " ++ reason.message

end Routing
