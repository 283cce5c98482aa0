/-!
# Paths and their segments

A request path ends at its query. What comes before it is cut at every slash, after all slashes at
its end are dropped; the text in front of the first slash is no segment.
-/

namespace Routing

namespace Path

/-- The characters in front of the first question mark. -/
def beforeQuery (path : List Char) : List Char := path.takeWhile (· ≠ '?')

/-- Drops every slash at the end. -/
def trimEnd (path : List Char) : List Char := (path.reverse.dropWhile (· = '/')).reverse

def withoutQuery (path : String) : String := String.ofList (beforeQuery path.toList)

/-- The segments of a request path. -/
def segments (path : String) : List String :=
  ((trimEnd (beforeQuery path.toList)).splitOn '/').tail.map String.ofList

/-- Drops one slash in front, if there is one. -/
def dropSlash : List Char → List Char
  | '/' :: cs => cs
  | cs => cs

end Path

/-! ### Literal keys -/

/-- Letters and digits of ASCII, and four marks. -/
def isKeyChar (c : Char) : Bool :=
  c.isAlphanum || c = '-' || c = '.' || c = '_' || c = '~'

/-- Whether a text may name a literal edge. -/
def isKey (text : String) : Bool :=
  !text.toList.isEmpty && text.toList.all isKeyChar

end Routing
