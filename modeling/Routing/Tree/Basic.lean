import Routing.Dict
import Routing.Param

/-!
# Route trees

A tree is one position of the routes and everything behind it: a label, the handler of the requests
that end here, the literal children by key, at most one child behind a parameter, and at most one
behind a wildcard. An `Edge` names a child whatever the parameter is called, an address is a list of
edges, and `at?` is the view of a tree by address.
-/

universe u

namespace Routing

/-- A position of the routes, with everything behind it. -/
inductive Tree (H : Type u) where
  | node (label : String) (handler : Option H) (literals : List (String × Tree H))
      (param : Option (Param × Tree H)) (wildcard : Option (Tree H))

/-- Which child a step goes to. -/
inductive Edge where
  | literal (key : String)
  | param
  | wildcard
deriving DecidableEq

namespace Tree

variable {H : Type u}

/-- What the position is called in reports. -/
def label : Tree H → String
  | .node label _ _ _ _ => label

/-- The handler of the requests that end here. -/
def handler : Tree H → Option H
  | .node _ handler _ _ _ => handler

/-- The literal children, ascending by key in every tree that the library makes. -/
def literals : Tree H → Dict (Tree H)
  | .node _ _ literals _ _ => literals

/-- The parameter and the child behind it. -/
def param : Tree H → Option (Param × Tree H)
  | .node _ _ _ param _ => param

/-- The child behind the wildcard. -/
def wildcard : Tree H → Option (Tree H)
  | .node _ _ _ _ wildcard => wildcard

@[simp] theorem label_node (l : String) (h : Option H) (ls : List (String × Tree H))
    (p : Option (Param × Tree H)) (w : Option (Tree H)) : (node l h ls p w).label = l := rfl

@[simp] theorem handler_node (l : String) (h : Option H) (ls : List (String × Tree H))
    (p : Option (Param × Tree H)) (w : Option (Tree H)) : (node l h ls p w).handler = h := rfl

@[simp] theorem literals_node (l : String) (h : Option H) (ls : List (String × Tree H))
    (p : Option (Param × Tree H)) (w : Option (Tree H)) : (node l h ls p w).literals = ls := rfl

@[simp] theorem param_node (l : String) (h : Option H) (ls : List (String × Tree H))
    (p : Option (Param × Tree H)) (w : Option (Tree H)) : (node l h ls p w).param = p := rfl

@[simp] theorem wildcard_node (l : String) (h : Option H) (ls : List (String × Tree H))
    (p : Option (Param × Tree H)) (w : Option (Tree H)) : (node l h ls p w).wildcard = w := rfl

/-- What passes from the children of every position to the position itself holds of all trees. -/
@[elab_as_elim]
theorem induct {motive : Tree H → Prop}
    (node : ∀ label handler literals param wildcard,
      (∀ entry ∈ literals, motive entry.2) → (∀ child ∈ param, motive child.2) →
        (∀ child ∈ wildcard, motive child) → motive (.node label handler literals param wildcard)) :
    ∀ t, motive t
  | .node label handler literals param wildcard =>
    node label handler literals param wildcard (fun entry _ => induct node entry.2)
      (fun child _ => induct node child.2) (fun child _ => induct node child)
termination_by t => sizeOf t
decreasing_by
  · next mem =>
    have := List.sizeOf_lt_of_mem mem
    cases entry
    simp_all
    omega
  · next mem =>
    cases mem
    cases child
    simp
    omega
  · next mem =>
    cases mem
    simp
    omega

/-- The label of the outermost position. -/
def rootLabel : String := "::ROOT::"

/-- The label of the position behind a wildcard. -/
def wildcardLabel : String := "::WILDCARD::"

/-- The label of the position where a single route ends. -/
def bottomLabel : String := "::BOTTOM::"

/-- A root without handler or children. -/
def empty : Tree H := .node rootLabel none [] none none

/-- Neither a handler nor a child. -/
def isEmpty (t : Tree H) : Bool :=
  t.handler.isNone && t.literals.isEmpty && t.param.isNone && t.wildcard.isNone

/-! ### Children and addresses -/

/-- The child behind a literal edge. -/
def literal? (key : String) (t : Tree H) : Option (Tree H) := Dict.find? key t.literals

/-- The literal children in the order of their keys. -/
def literalChildren (t : Tree H) : Dict (Tree H) := t.literals.sorted

/-- The number of literal children. -/
def literalCount (t : Tree H) : Nat := t.literals.length

theorem literalChildren_eq {t : Tree H} (h : Dict.Ascending t.literals) :
    t.literalChildren = t.literals := h.sorted_eq

/-- The child behind an edge. -/
def child? (t : Tree H) : Edge → Option (Tree H)
  | .literal key => t.literal? key
  | .param => t.param.map Prod.snd
  | .wildcard => t.wildcard

/-- The position at an address. -/
def at? (t : Tree H) : List Edge → Option (Tree H)
  | [] => some t
  | e :: es => (t.child? e).bind fun child => child.at? es

@[simp] theorem at?_nil (t : Tree H) : t.at? [] = some t := rfl

theorem at?_cons (t : Tree H) (e : Edge) (es : List Edge) :
    t.at? (e :: es) = (t.child? e).bind fun child => child.at? es := rfl

theorem at?_append (t : Tree H) (as bs : List Edge) :
    t.at? (as ++ bs) = (t.at? as).bind fun position => position.at? bs := by
  induction as generalizing t with
  | nil => rfl
  | cons e as ih => cases h : t.child? e <;> simp [at?_cons, h, ih]

@[simp] theorem child?_empty (e : Edge) : (empty : Tree H).child? e = none := by
  cases e <;> rfl

end Tree

end Routing
