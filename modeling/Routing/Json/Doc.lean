import Routing.Json.Token

/-!
# JSON documents

A document is read from its tokens one by one. What is still open, the arrays and objects around the
place that is read, is kept as a list of frames, so that documents may be nested to any depth.
-/

namespace Routing.Json

/-- A JSON value, with the fields of objects in their order. -/
inductive Doc where
  /-- A number or one of the three names. -/
  | word (spelling : String)
  /-- A text; no value if a surrogate stands alone in it. -/
  | text (value : Option String)
  | array (items : List Doc)
  | object (fields : List (Option String × Doc))

/-- An open array or object, with what was read of it, last first. -/
inductive Frame where
  | array (before : List Doc)
  /-- An object whose field of the given key still lacks its value. -/
  | field (before : List (Option String × Doc)) (key : Option String)

/-- What may come next. -/
inductive Want where
  /-- A value, or the end of an array that has no item yet. -/
  | value (mayClose : Bool)
  /-- A key behind the fields read before, or the end of an object that has no field yet. -/
  | key (before : List (Option String × Doc)) (mayClose : Bool)
  | colon (before : List (Option String × Doc)) (key : Option String)
  /-- What may follow a value that is complete. -/
  | after (value : Doc)

/-- How far a document has been read. -/
structure Reading where
  want : Want
  frames : List Frame

namespace Reading

def start : Reading := ⟨.value false, []⟩

/-- Reads the first token of a value, or the end of an empty array. -/
def readValue (mayClose : Bool) (frames : List Frame) : Token → Option Reading
  | .text value => some ⟨.after (.text value), frames⟩
  | .word spelling => some ⟨.after (.word spelling), frames⟩
  | .openArray => some ⟨.value true, .array [] :: frames⟩
  | .openObject => some ⟨.key [] true, frames⟩
  | .closeArray => if mayClose then some ⟨.after (.array []), frames.tail⟩ else none
  | .closeObject | .comma | .colon => none

/-- Reads the token behind a value, which belongs to the innermost array or object. -/
def readAfter (value : Doc) : List Frame → Token → Option Reading
  | .array before :: frames, .comma => some ⟨.value false, .array (value :: before) :: frames⟩
  | .array before :: frames, .closeArray =>
    some ⟨.after (.array (value :: before).reverse), frames⟩
  | .field before key :: frames, .comma => some ⟨.key ((key, value) :: before) false, frames⟩
  | .field before key :: frames, .closeObject =>
    some ⟨.after (.object ((key, value) :: before).reverse), frames⟩
  | _, _ => none

/-- Reads one token; none if it cannot stand where it does. -/
def step (r : Reading) (token : Token) : Option Reading :=
  match r.want, token with
  | .value mayClose, token => readValue mayClose r.frames token
  | .key before _, .text key => some ⟨.colon before key, r.frames⟩
  | .key _ true, .closeObject => some ⟨.after (.object []), r.frames⟩
  | .colon before key, .colon => some ⟨.value false, .field before key :: r.frames⟩
  | .after value, token => readAfter value r.frames token
  | _, _ => none

/-- The document, if it is complete. -/
def doc? (r : Reading) : Option Doc :=
  match r.want, r.frames with
  | .after value, [] => some value
  | _, _ => none

end Reading

/-- The document that all tokens together make. -/
def Doc.ofTokens? (tokens : List Token) : Option Doc :=
  (tokens.foldlM Reading.step Reading.start).bind Reading.doc?

/-- Reads a document from its text. -/
def Doc.parse? (text : String) : Option Doc :=
  (tokens? text).bind Doc.ofTokens?

end Routing.Json
