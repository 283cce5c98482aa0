/-!
# Tokens of a JSON text

A JSON text is cut into brackets, commas, colons, quoted texts and words, where a word is a number
or one of three names. Texts are read to the end even when their escapes stand for no character:
such a text is a token without a value.
-/

namespace Routing.Json

/-- A character of a quoted text, or a UTF-16 unit that is written as an escape. -/
inductive Mark where
  | char (c : Char)
  | unit (n : Nat)

/-- The smallest parts of a JSON text. -/
inductive Token where
  | openArray
  | closeArray
  | openObject
  | closeObject
  | comma
  | colon
  /-- A quoted text; no value if a surrogate stands alone in it. -/
  | text (value : Option String)
  | word (spelling : String)

/-! ### Quoted texts -/

/-- The value of a hexadecimal digit, in either case. -/
def hexDigit? (c : Char) : Option Nat :=
  if c.isDigit then some (c.toNat - '0'.toNat)
  else if 'a' ≤ c ∧ c ≤ 'f' then some (c.toNat - 'a'.toNat + 10)
  else if 'A' ≤ c ∧ c ≤ 'F' then some (c.toNat - 'A'.toNat + 10)
  else none

/-- The number that four hexadecimal digits write. -/
def unit? (a b c d : Char) : Option Nat := do
  let a ← hexDigit? a
  let b ← hexDigit? b
  let c ← hexDigit? c
  let d ← hexDigit? d
  return ((a * 16 + b) * 16 + c) * 16 + d

/-- The character that a backslash and one more character stand for. -/
def escaped? : Char → Option Char
  | '"' => some '"'
  | '\\' => some '\\'
  | '/' => some '/'
  | 'b' => some '\x08'
  | 'f' => some '\x0c'
  | 'n' => some '\n'
  | 'r' => some '\r'
  | 't' => some '\t'
  | _ => none

/-- Reads up to the closing quote; control characters must be escaped. The marks read before come
last first. -/
def readMarks (before : List Mark) : List Char → Option (List Mark × List Char)
  | [] => none
  | '"' :: rest => some (before.reverse, rest)
  | '\\' :: 'u' :: a :: b :: c :: d :: rest =>
    match unit? a b c d with
    | some n => readMarks (.unit n :: before) rest
    | none => none
  | '\\' :: e :: rest =>
    match escaped? e with
    | some c => readMarks (.char c :: before) rest
    | none => none
  | c :: rest => if c.toNat < 0x20 then none else readMarks (.char c :: before) rest

theorem length_of_readMarks {before marks : List Mark} {cs rest : List Char}
    (h : readMarks before cs = some (marks, rest)) : rest.length < cs.length := by
  fun_induction readMarks before cs <;> simp_all <;> omega

/-- The first unit of a pair that stands for one character. -/
def isHighSurrogate (n : Nat) : Bool := 0xd800 ≤ n && n < 0xdc00

/-- The second unit of a pair that stands for one character. -/
def isLowSurrogate (n : Nat) : Bool := 0xdc00 ≤ n && n < 0xe000

/-- The text that marks stand for: surrogates must come in pairs. -/
def valueOf : List Mark → Option (List Char)
  | [] => some []
  | .char c :: rest => (valueOf rest).map (c :: ·)
  | .unit high :: .unit low :: rest =>
    if isHighSurrogate high then
      if isLowSurrogate low then
        let c := Char.ofNat (0x10000 + (high - 0xd800) * 0x400 + (low - 0xdc00))
        (valueOf rest).map (c :: ·)
      else none
    else if isLowSurrogate high then none
    else (valueOf (.unit low :: rest)).map (Char.ofNat high :: ·)
  | .unit n :: rest =>
    if isHighSurrogate n || isLowSurrogate n then none
    else (valueOf rest).map (Char.ofNat n :: ·)

/-! ### Words -/

/-- The characters that continue a word. -/
def isWordChar (c : Char) : Bool :=
  c.isAlphanum || c = '+' || c = '-' || c = '.'

/-- What follows one or more digits. -/
def afterDigits? : List Char → Option (List Char)
  | [] => none
  | c :: cs => if c.isDigit then some (cs.dropWhile Char.isDigit) else none

/-- What follows the digits in front of the point: a leading zero stands alone. -/
def afterInteger? : List Char → Option (List Char)
  | '0' :: cs => some cs
  | cs => afterDigits? cs

/-- What follows a point and its digits, if there is a point. -/
def afterFraction? : List Char → Option (List Char)
  | '.' :: cs => afterDigits? cs
  | cs => some cs

def dropSign : List Char → List Char
  | '+' :: cs => cs
  | '-' :: cs => cs
  | cs => cs

/-- What follows an exponent, if there is one. -/
def afterExponent? : List Char → Option (List Char)
  | 'e' :: cs => afterDigits? (dropSign cs)
  | 'E' :: cs => afterDigits? (dropSign cs)
  | cs => some cs

/-- Whether the characters, all together, are a number. -/
def isNumber (cs : List Char) : Bool :=
  let unsigned := match cs with
    | '-' :: cs => cs
    | cs => cs
  ((afterInteger? unsigned).bind afterFraction?).bind afterExponent? == some []

/-- The token of a word; none if it is no number and no name. -/
def word? (cs : List Char) : Option Token :=
  let spelling := String.ofList cs
  if spelling = "null" ∨ spelling = "true" ∨ spelling = "false" ∨ isNumber cs then
    some (.word spelling)
  else none

/-! ### Tokens -/

def isBlank (c : Char) : Bool :=
  c = ' ' || c = '\t' || c = '\n' || c = '\r'

def punctuation? : Char → Option Token
  | '[' => some .openArray
  | ']' => some .closeArray
  | '{' => some .openObject
  | '}' => some .closeObject
  | ',' => some .comma
  | ':' => some .colon
  | _ => none

/-- The tokens of a text behind those read before, which come last first. -/
def readTokens (before : List Token) (cs : List Char) : Option (List Token) :=
  match cs with
  | [] => some before.reverse
  | c :: rest =>
    if isBlank c then readTokens before rest
    else if c = '"' then
      match h : readMarks [] rest with
      | some (marks, rest') =>
        have := length_of_readMarks h
        readTokens (.text ((valueOf marks).map String.ofList) :: before) rest'
      | none => none
    else match punctuation? c with
      | some token => readTokens (token :: before) rest
      | none =>
        match word? (c :: rest.takeWhile isWordChar) with
        | some token =>
          have := (List.dropWhile_sublist isWordChar (l := rest)).length_le
          readTokens (token :: before) (rest.dropWhile isWordChar)
        | none => none
termination_by cs.length

/-- All tokens of a text, in their order. -/
def tokens? (text : String) : Option (List Token) := readTokens [] text.toList

end Routing.Json
