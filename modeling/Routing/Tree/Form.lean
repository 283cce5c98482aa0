import Routing.Tree.Basic

/-!
# Written forms of trees

A position is written with its label, whether it has a handler, its literal keys, the name of its
parameter and whether it has a wildcard child; what stands behind it is left out.
-/

universe u

namespace Routing.Tree

open Routing.Text

variable {H : Type u}

/-- The form of a position. -/
def form (t : Tree H) : Form :=
  .record "RouteTreeNode" [
    ("label", .quoted t.label),
    ("has_handler", .ofBool t.handler.isSome),
    ("literal_children", .list (t.literalChildren.keys.map .quoted)),
    ("parametric_child", .ofOption (t.param.map fun (p, _) => .quoted p.name)),
    ("wildcard_child", .ofBool t.wildcard.isSome)]

/-- The form of a parameter together with the position behind it. -/
def paramForm (child : Param × Tree H) : Form :=
  .record "ParametricChild" [("segment", child.1.form), ("node", child.2.form)]

end Routing.Tree
