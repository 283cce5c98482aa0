/-!
# Integers in decimal text

A natural number is written with one or more ASCII digits, leading zeros allowed. An integer may
carry one sign in front. The 64-bit readers accept a text when the number it writes is in their
range, so no digit is ever lost.
-/

namespace Routing.Text

/-- The number that a list of digits writes, the first digit the most significant. -/
def ofDigits (digits : List Char) : Nat :=
  digits.foldl (fun n c => 10 * n + (c.toNat - '0'.toNat)) 0

/-- Reads one or more digits. -/
def readNat? (cs : List Char) : Option Nat :=
  if cs ≠ [] ∧ cs.all Char.isDigit then some (ofDigits cs) else none

/-- Reads digits with at most one sign in front. -/
def readInt? : List Char → Option Int
  | '-' :: cs => (readNat? cs).map fun n => -(n : Int)
  | '+' :: cs => (readNat? cs).map fun n => (n : Int)
  | cs => (readNat? cs).map fun n => (n : Int)

/-- The word for an integer, if it is in the range of signed 64-bit words. -/
def toWord? (n : Int) : Option Int64 :=
  if Int64.minValue.toInt ≤ n ∧ n ≤ Int64.maxValue.toInt then some (Int64.ofInt n) else none

/-- Reads a signed 64-bit integer. -/
def readInt64? (text : String) : Option Int64 :=
  (readInt? text.toList).bind toWord?

/-- Reads a count below 2 ^ 64; a plus sign is allowed. -/
def readCount? (text : String) : Option Nat :=
  let digits := match text.toList with
    | '+' :: cs => cs
    | cs => cs
  (readNat? digits).bind fun n => if n < UInt64.size then some n else none

/-- The decimal text of a word. -/
def writeInt64 (n : Int64) : String := toString n.toInt

end Routing.Text
