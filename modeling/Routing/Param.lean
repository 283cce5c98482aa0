import Routing.Text.Form
import Routing.Text.Integer

/-!
# Parameters

A parameter names a position of a path and reads the segment found there, or rejects it. Any reader
may be supplied; the ones given here read texts and integers.
-/

namespace Routing

/-- What a segment is read as. -/
inductive Value where
  | int (n : Int64)
  | text (s : String)
deriving DecidableEq

/-- A named parameter, with how it is written and how it reads a segment. -/
structure Param where
  name : String
  /-- How the parameter itself is written. -/
  form : Text.Form
  /-- The value of a segment; none if the parameter rejects it. -/
  read : String → Option Value

namespace Param

/-- A form with the parameter's name as its first field. -/
def formOf (kind name : String) (fields : List (String × Text.Form)) : Text.Form :=
  .record kind (("name", .quoted name) :: fields)

/-- Takes every segment as it is. -/
def text (name : String) : Param where
  name
  form := formOf "StringSegment" name []
  read raw := some (.text raw)

/-- Takes signed 64-bit integers. -/
def number (name : String) : Param where
  name
  form := formOf "NumberSegment" name []
  read raw := (Text.readInt64? raw).map .int

/-- The label of the position behind a parameter. -/
def label (p : Param) : String := "::PARAM:" ++ p.name ++ "::"

end Param

end Routing
