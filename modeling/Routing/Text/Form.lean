import Routing.Text.Quoted

/-!
# Written forms of values

A `Form` says how a value is written for a reader: a quoted text, a list, a wrapped value such as
`Some(x)`, or a name with named fields. `Form.inline` writes it on one line, `Form.indented` with
one item a line, four spaces a level and a comma after each item.
-/

namespace Routing.Text

/-- How a value is written, apart from line breaks. -/
inductive Form where
  | quoted (text : String)
  | list (items : List Form)
  | wrapped (name : String) (inner : Form)
  /-- A name with named fields; without fields, the name alone. -/
  | record (name : String) (fields : List (String × Form))

namespace Form

/-- A value that is written as one word. -/
def word (name : String) : Form := .record name []

def ofBool (b : Bool) : Form := word (if b then "true" else "false")

/-- A value that may be missing. -/
def ofOption : Option Form → Form
  | none => word "None"
  | some inner => .wrapped "Some" inner

/-! ### On one line -/

mutual

/-- A form on one line. -/
def inline : Form → String
  | .quoted text => Text.quoted text
  | .list items => "[" ++ ", ".intercalate (inlineItems items) ++ "]"
  | .wrapped name inner => name ++ "(" ++ inner.inline ++ ")"
  | .record name [] => name
  | .record name (field :: fields) =>
    name ++ " \x7b " ++ ", ".intercalate (inlineFields (field :: fields)) ++ " \x7d"

/-- The items of a list, each on one line. -/
def inlineItems : List Form → List String
  | [] => []
  | item :: items => item.inline :: inlineItems items

/-- The fields of a record, each on one line behind its name. -/
def inlineFields : List (String × Form) → List String
  | [] => []
  | (name, value) :: fields => (name ++ ": " ++ value.inline) :: inlineFields fields

end

/-! ### One item a line -/

/-- A line of a block, at its level of nesting. -/
def blockLine (level : Nat) (text : String) : String :=
  String.ofList (List.replicate (4 * level) ' ') ++ text

/-- Lines between an opening and a closing text; the closing one stands at the outer level. -/
def block (level : Nat) (opening : String) (items : List String) (closing : String) : String :=
  opening ++ "\n" ++ String.join (items.map fun item => blockLine (level + 1) item ++ ",\n") ++
    blockLine level closing

mutual

/-- A form over several lines; a list or record without items stays one word. -/
def indented (level : Nat) : Form → String
  | .quoted text => Text.quoted text
  | .list [] => "[]"
  | .list (item :: items) => block level "[" (indentedItems (level + 1) (item :: items)) "]"
  | .wrapped name inner => block level (name ++ "(") [inner.indented (level + 1)] ")"
  | .record name [] => name
  | .record name (field :: fields) =>
    block level (name ++ " \x7b") (indentedFields (level + 1) (field :: fields)) "\x7d"

/-- The items of a list, each at the given level. -/
def indentedItems (level : Nat) : List Form → List String
  | [] => []
  | item :: items => item.indented level :: indentedItems level items

/-- The fields of a record, each at the given level behind its name. -/
def indentedFields (level : Nat) : List (String × Form) → List String
  | [] => []
  | (name, value) :: fields =>
    (name ++ ": " ++ value.indented level) :: indentedFields level fields

end

end Form

end Routing.Text
