/-!
# Writing JSON

Compact JSON: no blanks, fields in the order given. In a quoted text the quote, the backslash and
the control characters are escaped, the control characters in the short form where there is one.
-/

namespace Routing.Json

def hexDigit (n : Nat) : Char := "0123456789abcdef".toList.getD n '0'

/-- What is written for a character of a text. -/
def escape (c : Char) : List Char :=
  match c with
  | '"' => ['\\', '"']
  | '\\' => ['\\', '\\']
  | '\x08' => ['\\', 'b']
  | '\t' => ['\\', 't']
  | '\n' => ['\\', 'n']
  | '\x0c' => ['\\', 'f']
  | '\r' => ['\\', 'r']
  | c =>
    if c.toNat < 0x20 then
      ['\\', 'u', '0', '0', hexDigit (c.toNat / 16), hexDigit (c.toNat % 16)]
    else [c]

/-- A text between double quotes. -/
def quote (s : String) : String :=
  String.ofList (['"'] ++ s.toList.flatMap escape ++ ['"'])

/-- An array of values that are already written. -/
def array (values : List String) : String :=
  "[" ++ ",".intercalate values ++ "]"

/-- An object of values that are already written. -/
def object (fields : List (String × String)) : String :=
  "\x7b" ++ ",".intercalate (fields.map fun (key, value) => quote key ++ ":" ++ value) ++ "\x7d"

end Routing.Json
