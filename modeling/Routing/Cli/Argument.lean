/-!
# Command line arguments

An argument is an operand, the mark after which all are operands, or it names options: one by its
long name, with a value behind an equals sign if it takes one, or several by their letters, where
the first that takes a value has it in the letters left. A value may also be the next argument,
unless that looks like an option itself.
-/

namespace Routing.Cli

inductive Opt where
  | verbose
  | routes
  | iterations
  | warmup
deriving DecidableEq

namespace Opt

/-- The name behind two dashes. -/
def longName : Opt → String
  | .verbose => "verbose"
  | .routes => "routes"
  | .iterations => "iterations"
  | .warmup => "warmup"

/-- The letter behind one dash, if the option has one. -/
def letter? : Opt → Option Char
  | .verbose => some 'v'
  | .routes => some 'r'
  | .iterations => some 'i'
  | .warmup => none

/-- Whether an option must have a value; the others may have none. -/
def takesValue : Opt → Bool
  | .verbose => false
  | .routes | .iterations | .warmup => true

end Opt

/-- What the arguments say, piece by piece. -/
inductive Item where
  | flag (o : Opt)
  | setting (o : Opt) (value : String)
  | operand (text : String)

/-- What an argument says on its own. -/
inductive Reading where
  | items (items : List Item)
  /-- Items, and an option whose value is the next argument. -/
  | needsValue (items : List Item) (o : Opt)
  /-- The mark after which all arguments are operands. -/
  | endOfOptions
  | unknown

variable (allowed : List Opt)

/-- Reads options by their letters. -/
def readLetters : List Char → Reading
  | [] => .items []
  | c :: cs =>
    match allowed.find? fun o => o.letter? = some c with
    | none => .unknown
    | some o =>
      if o.takesValue then
        match cs with
        | [] => .needsValue [] o
        | '=' :: value => .items [.setting o (String.ofList value)]
        | value => .items [.setting o (String.ofList value)]
      else match readLetters cs with
        | .items items => .items (.flag o :: items)
        | .needsValue items o' => .needsValue (.flag o :: items) o'
        | other => other

/-- Reads an option by its long name. -/
def readLong (cs : List Char) : Reading :=
  let name := String.ofList (cs.takeWhile (· ≠ '='))
  match allowed.find? (fun o => o.longName = name), cs.dropWhile (· ≠ '=') with
  | none, _ => .unknown
  | some o, [] => if o.takesValue then .needsValue [] o else .items [.flag o]
  | some o, _ :: value =>
    if o.takesValue then .items [.setting o (String.ofList value)] else .unknown

/-- Reads one argument; a single dash is an operand. -/
def readArgument (arg : String) : Reading :=
  match arg.toList with
  | ['-', '-'] => .endOfOptions
  | '-' :: '-' :: cs => readLong allowed cs
  | '-' :: c :: cs => readLetters allowed (c :: cs)
  | _ => .items [.operand arg]

/-- Whether an argument cannot be the value of the option in front of it. -/
def looksLikeOption (arg : String) : Bool :=
  match arg.toList with
  | '-' :: _ :: _ => true
  | _ => false

/-- Reads arguments of which some options are allowed. -/
def readArguments : List String → Option (List Item)
  | [] => some []
  | arg :: rest =>
    match readArgument allowed arg with
    | .items items => (readArguments rest).map (items ++ ·)
    | .needsValue items o =>
      match rest with
      | [] => none
      | value :: rest =>
        if looksLikeOption value then none
        else (readArguments rest).map fun more => items ++ .setting o value :: more
    | .endOfOptions => some (rest.map .operand)
    | .unknown => none

/-! ### What items say -/

/-- The texts that belong to no option. -/
def operands (items : List Item) : List String :=
  items.filterMap fun
    | .operand text => some text
    | _ => none

/-- How often an option without a value is given. -/
def flagCount (o : Opt) (items : List Item) : Nat :=
  items.countP fun
    | .flag o' => o = o'
    | _ => false

/-- The values that are given for an option, in their order. -/
def settings (o : Opt) (items : List Item) : List String :=
  items.filterMap fun
    | .setting o' value => if o = o' then some value else none
    | _ => none

end Routing.Cli
