import Routing.Text.Shown

/-!
# Quoted text

A text is written between double quotes so that it stays on one line: the quote, the backslash and
four control characters have short escapes, every other character that is not shown is written by
its code point in hexadecimal.
-/

namespace Routing.Text

/-- The code point in hexadecimal, between braces. -/
def codeEscape (c : Char) : List Char :=
  ['\\', 'u', '{'] ++ Nat.toDigits 16 c.toNat ++ ['}']

/-- What is written for a character of a quoted text. -/
def escape (c : Char) : List Char :=
  match c with
  | '\x00' => ['\\', '0']
  | '\t' => ['\\', 't']
  | '\r' => ['\\', 'r']
  | '\n' => ['\\', 'n']
  | '"' => ['\\', '"']
  | '\\' => ['\\', '\\']
  | c => if isShown c then [c] else codeEscape c

/-- A text between double quotes, on one line. -/
def quoted (text : String) : String :=
  String.ofList (['"'] ++ text.toList.flatMap escape ++ ['"'])

end Routing.Text
