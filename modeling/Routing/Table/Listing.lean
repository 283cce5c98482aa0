import Routing.Table.Names
import Routing.Tree.Rows

/-!
# Listings of trees

A tree is listed with one line for each position, indented by two blanks a level: how the position
is reached, its label, and the names of its routes if it has any.
-/

namespace Routing.Table

/-- How a position is reached, in one word in front of its label. -/
def listStep : Step → String
  | .root => "/"
  | .literal key => key
  | .param p => ":" ++ p.name ++ " " ++ p.form.inline
  | .wildcard => "*"

/-- The names of a position, behind its label. -/
def listNames : Option Names → String
  | none => ""
  | some names => " => " ++ ", ".intercalate names.list

/-- The line of a row without the line feed behind it. -/
def rowText (row : Row Names) : String :=
  String.ofList (List.replicate (2 * row.depth) ' ') ++ listStep row.step ++
    " [" ++ row.label ++ "]" ++ listNames row.handler

/-- The line of a row. -/
def listRow (row : Row Names) : String := rowText row ++ "\n"

/-- The lines of all positions, the outermost one first. -/
def listing (t : Tree Names) : String := String.join (t.rows.map listRow)

end Routing.Table
