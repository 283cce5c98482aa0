import Mathlib.Data.List.Forall2
import Routing.Proofs.Ordered
import Routing.Tree.Rows

/-!
# Positions in pre-order

The edges of a position are in an order: the literal ones by key, then the parameter, then the
wildcard. `Tree.nodes` lists the positions of a tree with their addresses. In an ordered tree these
are all positions (`Ordered.mem_nodes`) in the lexicographic order of their addresses
(`Ordered.pairwise_nodes`), which puts each position in front of what stands behind it. The rows of
the tree are the rows of these positions (`Ordered.map_some_rowsFrom`).

Each address continues a part of the one in front of it by one edge (`Ordered.isChain_nodes`), so
that all of them can be traced from their lengths and last edges (`Ordered.retrace_nodes`).
-/

universe u

namespace Routing

/-! ### The order of addresses -/

namespace Edge

/-- Literal edges by key, then the parameter, then the wildcard. -/
inductive Before : Edge → Edge → Prop where
  | literal {k l : String} (h : k < l) : Before (.literal k) (.literal l)
  | literal_param (k : String) : Before (.literal k) .param
  | literal_wildcard (k : String) : Before (.literal k) .wildcard
  | param_wildcard : Before .param .wildcard

theorem Before.irrefl {e : Edge} (h : Before e e) : False := by
  cases h with
  | literal h => exact String.lt_irrefl _ h

theorem Before.asymm {d e : Edge} (h : Before d e) (h' : Before e d) : False := by
  cases h with
  | literal h =>
    cases h' with
    | literal h' => exact String.lt_irrefl _ (String.lt_trans h h')
  | literal_param | literal_wildcard | param_wildcard => cases h'

end Edge

/-- The lexicographic order: every address is in front of those that continue it. -/
def AddressLt (a b : List Edge) : Prop := List.Lex Edge.Before a b

namespace AddressLt

variable {a b : List Edge} {e : Edge}

/-- Nothing that continues an address is in front of it. -/
theorem not_append (a b : List Edge) : ¬ AddressLt (a ++ b) a := by
  intro h
  induction a with
  | nil => cases h
  | cons d a ih =>
    cases h with
    | rel h => exact h.irrefl
    | cons h => exact ih h

theorem ne (h : AddressLt a b) : a ≠ b := by
  rintro rfl
  exact not_append a [] (by rwa [List.append_nil])

/-- Only what continues an address stands between it and an address one edge behind it. -/
theorem prefix_of_concat (hab : AddressLt a b) (hb : AddressLt b (a ++ [e])) : a <+: b := by
  induction a generalizing b with
  | nil => exact List.nil_prefix
  | cons d a ih =>
    cases hab with
    | rel first =>
      cases hb with
      | rel second => exact (first.asymm second).elim
      | cons _ => exact first.irrefl.elim
    | cons rest =>
      cases hb with
      | rel second => exact second.irrefl.elim
      | cons rest' => exact List.cons_prefix_cons.mpr ⟨rfl, ih rest rest'⟩

end AddressLt

/-- In a sorted list that has all addresses on the way to its members, each one continues a part of
the one in front of it by one edge. -/
theorem isChain_dropLast_prefix {as : List (List Edge)} (sorted : as.Pairwise AddressLt)
    (closed : ∀ a ∈ as, a.dropLast ∈ as) :
    as.IsChain fun before a => a.dropLast <+: before := by
  rw [List.isChain_iff_getElem]
  intro i hi
  rcases List.eq_nil_or_concat' as[i + 1] with root | ⟨front, e, split⟩
  · rw [root]
    exact List.nil_prefix
  -- the address in front of the last edge is in the list, but not behind place `i`
  have parent := closed as[i + 1] (List.getElem_mem hi)
  rw [split, List.dropLast_concat] at parent ⊢
  obtain ⟨j, hj, rfl⟩ := List.mem_iff_getElem.mp parent
  rcases Nat.lt_trichotomy j i with hlt | rfl | hgt
  · have earlier : AddressLt as[j] as[i] := List.pairwise_iff_getElem.mp sorted j i hj _ hlt
    have later : AddressLt as[i] (as[j] ++ [e]) := by
      rw [← split]
      exact List.pairwise_iff_getElem.mp sorted i (i + 1) _ hi (Nat.lt_succ_self i)
    exact earlier.prefix_of_concat later
  · exact List.prefix_refl _
  · rcases Nat.eq_or_lt_of_le (Nat.succ_le_of_lt hgt) with heq | hlt
    · subst heq
      simp at split
    · have behind : AddressLt as[i + 1] as[j] :=
        List.pairwise_iff_getElem.mp sorted (i + 1) j hi hj hlt
      rw [split] at behind
      exact (AddressLt.not_append _ _ behind).elim

/-- The edge that a step goes along. -/
def Step.edge? : Step → Option Edge
  | .root => none
  | .literal key => some (.literal key)
  | .param _ => some .param
  | .wildcard => some .wildcard

namespace Tree

variable {H : Type u}

/-! ### The positions of a tree -/

/-- The children of a position with the edges in front of them. -/
def children (t : Tree H) : List (Edge × Tree H) :=
  t.literals.map (fun entry => (.literal entry.1, entry.2)) ++
    t.param.toList.map (fun child => (.param, child.2)) ++
    t.wildcard.toList.map fun child => (.wildcard, child)

mutual

/-- The positions of a tree with their addresses. -/
def nodes : Tree H → List (List Edge × Tree H)
  | .node label handler literals param wildcard =>
    ([], .node label handler literals param wildcard) ::
      (literalNodes literals ++ paramNodes param ++ wildcardNodes wildcard)

/-- The positions behind literal edges. -/
def literalNodes : List (String × Tree H) → List (List Edge × Tree H)
  | [] => []
  | (key, child) :: rest =>
    (child.nodes.map fun x => (.literal key :: x.1, x.2)) ++ literalNodes rest

def paramNodes : Option (Param × Tree H) → List (List Edge × Tree H)
  | none => []
  | some (_, child) => child.nodes.map fun x => (.param :: x.1, x.2)

def wildcardNodes : Option (Tree H) → List (List Edge × Tree H)
  | none => []
  | some child => child.nodes.map fun x => (.wildcard :: x.1, x.2)

end

theorem nodes_eq (t : Tree H) : t.nodes = ([], t) ::
    t.children.flatMap fun c => c.2.nodes.map fun x => (c.1 :: x.1, x.2) := by
  have literal (ls : List (String × Tree H)) : literalNodes ls =
      ls.flatMap fun c => c.2.nodes.map fun x => (.literal c.1 :: x.1, x.2) := by
    induction ls with
    | nil => rfl
    | cons entry rest ih => rw [literalNodes, ih, List.flatMap_cons]
  obtain ⟨label, handler, literals, param, wildcard⟩ := t
  rw [nodes, literal]
  cases param <;> cases wildcard <;>
    simp [children, paramNodes, wildcardNodes, List.flatMap_map]

section Ordered

variable {t : Tree H}

theorem mem_children (h : Dict.Ascending t.literals) {e : Edge} {c : Tree H} :
    (e, c) ∈ t.children ↔ t.child? e = some c := by
  cases e with
  | literal key =>
    rw [child?, literal?, Dict.find?_eq_some_iff h]
    simp [children]
  | param => simp [children, child?]
  | wildcard => simp [children, child?]

theorem pairwise_children (h : Dict.Ascending t.literals) :
    (t.children.map Prod.fst).Pairwise Edge.Before := by
  have literal : (t.literals.map fun entry => Edge.literal entry.1).Pairwise Edge.Before :=
    List.pairwise_map.mpr (List.Pairwise.imp .literal h)
  have literals : ∀ e ∈ t.literals.map fun entry => Edge.literal entry.1,
      ∃ key, e = .literal key := by
    intro e he
    obtain ⟨entry, -, rfl⟩ := List.mem_map.mp he
    exact ⟨entry.1, rfl⟩
  rw [children, List.map_append, List.map_append, List.map_map, List.append_assoc]
  refine List.pairwise_append.mpr ⟨literal, ?_, fun d hd e he => ?_⟩
  · cases t.param <;> cases t.wildcard <;> simp [Edge.Before.param_wildcard]
  · obtain ⟨key, rfl⟩ := literals d hd
    have other : e = .param ∨ e = .wildcard := by
      cases hp : t.param <;> cases hw : t.wildcard <;> simp_all
    rcases other with rfl | rfl
    · exact .literal_param key
    · exact .literal_wildcard key

theorem Ordered.mem_nodes (h : t.Ordered) {a : List Edge} {n : Tree H} :
    (a, n) ∈ t.nodes ↔ t.at? a = some n := by
  induction a generalizing t with
  | nil =>
    rw [nodes_eq]
    simp [eq_comm]
  | cons e a ih =>
    rw [nodes_eq, at?_cons, Option.bind_eq_some_iff]
    simp only [List.mem_cons, List.mem_flatMap, List.mem_map, Prod.mk.injEq, reduceCtorEq,
      false_and, false_or]
    constructor
    · rintro ⟨⟨e', c⟩, hc, ⟨a', n'⟩, hn, heq, rfl⟩
      obtain ⟨rfl, rfl⟩ := List.cons_eq_cons.mp heq
      rw [mem_children h.ascending] at hc
      exact ⟨c, hc, (ih (h.child hc)).mp hn⟩
    · rintro ⟨c, hc, hn⟩
      exact ⟨(e, c), (mem_children h.ascending).mpr hc, (a, n), (ih (h.child hc)).mpr hn, rfl, rfl⟩

/-- **The positions are in the order of their addresses.** -/
theorem Ordered.pairwise_nodes (h : t.Ordered) : (t.nodes.map Prod.fst).Pairwise AddressLt := by
  induction t using induct_child? with
  | step t ih =>
    rw [nodes_eq, List.map_cons, List.map_flatMap, List.pairwise_cons]
    refine ⟨fun a ha => ?_, List.pairwise_flatMap.mpr ⟨fun ⟨e, c⟩ hc => ?_, ?_⟩⟩
    · simp only [List.mem_flatMap, List.mem_map] at ha
      obtain ⟨c, -, _, ⟨x, -, rfl⟩, rfl⟩ := ha
      exact .nil
    · rw [mem_children h.ascending] at hc
      have behind := ih e c hc (h.child hc)
      rw [List.map_map]
      exact List.pairwise_map.mpr ((List.pairwise_map.mp behind).imp .cons)
    · refine (List.pairwise_map.mp (pairwise_children h.ascending)).imp fun {c d} before => ?_
      intro a ha b hb
      simp only [List.map_map, List.mem_map, Function.comp_apply] at ha hb
      obtain ⟨x, -, rfl⟩ := ha
      obtain ⟨y, -, rfl⟩ := hb
      exact .rel before

/-- Different positions have different addresses. -/
theorem Ordered.nodup_nodes (h : t.Ordered) : (t.nodes.map Prod.fst).Nodup :=
  h.pairwise_nodes.imp AddressLt.ne

theorem Ordered.mem_map_nodes (h : t.Ordered) {a : List Edge} :
    a ∈ t.nodes.map Prod.fst ↔ (t.at? a).isSome := by
  rw [Option.isSome_iff_exists, List.mem_map]
  constructor
  · rintro ⟨x, hx, rfl⟩
    exact ⟨x.2, h.mem_nodes.mp hx⟩
  · rintro ⟨n, hn⟩
    exact ⟨(a, n), h.mem_nodes.mpr hn, rfl⟩

/-! ### Addresses traced from their last edges -/

/-- Addresses from their lengths and last edges, each of them traced from the one in front of it. -/
def retrace (before : List Edge) : List (Nat × Option Edge) → List (List Edge)
  | [] => []
  | (length, last) :: rest =>
    let a := before.take (length - 1) ++ last.toList
    a :: retrace a rest

theorem retrace_of_isChain {before : List Edge} {as : List (List Edge)}
    (chain : (before :: as).IsChain fun before a => a.dropLast <+: before) :
    retrace before (as.map fun a => (a.length, a.getLast?)) = as := by
  induction as generalizing before with
  | nil => rfl
  | cons a as ih =>
    obtain ⟨hpre, rest⟩ := List.isChain_cons_cons.mp chain
    have front : before.take (a.length - 1) = a.dropLast := by
      rw [List.prefix_iff_eq_take.mp hpre, List.length_dropLast]
    have whole : before.take (a.length - 1) ++ a.getLast?.toList = a := by
      rw [front]
      rcases List.eq_nil_or_concat' a with rfl | ⟨init, e, rfl⟩
      · rfl
      · simp
    rw [List.map_cons, retrace, whole, ih rest]

theorem Ordered.isChain_nodes (h : t.Ordered) :
    (t.nodes.map Prod.fst).IsChain fun before a => a.dropLast <+: before := by
  refine isChain_dropLast_prefix h.pairwise_nodes fun a ha => ?_
  rw [h.mem_map_nodes] at ha ⊢
  rcases List.eq_nil_or_concat' a with rfl | ⟨front, e, rfl⟩
  · exact ha
  · rw [List.dropLast_concat]
    by_contra none
    rw [at?_append, Option.not_isSome_iff_eq_none.mp none] at ha
    cases ha

theorem Ordered.retrace_nodes (h : t.Ordered) :
    retrace [] ((t.nodes.map Prod.fst).map fun a => (a.length, a.getLast?)) =
      t.nodes.map Prod.fst := by
  refine retrace_of_isChain ?_
  have chain := h.isChain_nodes
  rw [nodes_eq, List.map_cons] at chain ⊢
  exact List.isChain_cons_cons.mpr ⟨List.prefix_refl _, chain⟩

end Ordered

/-! ### The rows of positions -/

/-- The step along an edge to a child; without a parameter there is no child behind one. -/
def stepTo (t : Tree H) : Edge → Step
  | .literal key => .literal key
  | .param => (t.descriptor?.map Step.param).getD .root
  | .wildcard => .wildcard

/-- The row of the position at an address, in rows that start with a depth and a step. -/
def rowFrom? (depth : Nat) (step : Step) (t : Tree H) : List Edge → Option (Row H)
  | [] => some ⟨depth, step, t.label, t.handler⟩
  | e :: a => (t.child? e).bind fun c => c.rowFrom? (depth + 1) (t.stepTo e) a

/-- The row of the position at an address. -/
def rowAt? (t : Tree H) (a : List Edge) : Option (Row H) := t.rowFrom? 0 .root a

theorem rowsFrom_eq {t : Tree H} (h : Dict.Ascending t.literals) (depth : Nat) (step : Step) :
    t.rowsFrom depth step = ⟨depth, step, t.label, t.handler⟩ ::
      t.children.flatMap fun c => c.2.rowsFrom (depth + 1) (t.stepTo c.1) := by
  rw [rowsFrom_eq_append, literalChildren_eq h]
  cases hp : t.param <;> cases hw : t.wildcard <;>
    simp [children, paramRows, wildcardRows, stepTo, descriptor?, List.flatMap_map, hp, hw]

section Rows

variable {t : Tree H} {depth : Nat} {step : Step}

/-- **The rows of an ordered tree are those of its positions**, one after the other. -/
theorem Ordered.map_some_rowsFrom (h : t.Ordered) (depth : Nat) (step : Step) :
    (t.rowsFrom depth step).map some = (t.nodes.map Prod.fst).map (t.rowFrom? depth step) := by
  induction t using induct_child? generalizing depth step with
  | step t ih =>
    rw [rowsFrom_eq h.ascending, nodes_eq, List.map_cons, List.map_cons, List.map_cons,
      List.map_flatMap, List.map_flatMap, List.map_flatMap]
    congr 1
    refine List.flatMap_congr fun ⟨e, c⟩ hc => ?_
    rw [mem_children h.ascending] at hc
    rw [ih e c hc (h.child hc), List.map_map, List.map_map, List.map_map]
    refine List.map_congr_left fun x _ => ?_
    simp only [Function.comp_apply, rowFrom?, hc, Option.bind_some]

/-- The rows of an ordered tree, next to the addresses of their positions. -/
theorem Ordered.forall₂_rows (h : t.Ordered) :
    List.Forall₂ (fun a row => t.rowAt? a = some row) (t.nodes.map Prod.fst) t.rows := by
  have same : List.Forall₂ Eq ((t.nodes.map Prod.fst).map t.rowAt?) (t.rows.map some) := by
    rw [List.forall₂_eq_eq_eq]
    exact (h.map_some_rowsFrom 0 .root).symm
  exact List.forall₂_map_right_iff.mp (List.forall₂_map_left_iff.mp same)

theorem Ordered.exists_address (h : t.Ordered) {row : Row H} (mem : row ∈ t.rows) :
    ∃ a, t.rowAt? a = some row := by
  have shown : some row ∈ t.rows.map some := List.mem_map_of_mem mem
  rw [rows, h.map_some_rowsFrom] at shown
  obtain ⟨a, -, ha⟩ := List.mem_map.mp shown
  exact ⟨a, ha⟩

theorem handler_rowFrom? (a : List Edge) :
    (t.rowFrom? depth step a).bind Row.handler = t.handlerAt? a := by
  induction a generalizing t depth step with
  | nil => rfl
  | cons e a ih =>
    rw [rowFrom?, handlerAt?_cons, Option.bind_assoc]
    simp only [ih]

/-- The rows of an ordered tree show the handlers at its addresses. -/
theorem Ordered.map_handler_rows (h : t.Ordered) :
    t.rows.map Row.handler = (t.nodes.map Prod.fst).map t.handlerAt? := by
  rw [rows]
  have shown := congrArg (List.map (Option.bind · Row.handler)) (h.map_some_rowsFrom 0 .root)
  simpa only [List.map_map, Function.comp_def, Option.bind_some, handler_rowFrom?] using shown

theorem edge?_stepTo {e : Edge} {c : Tree H} (hc : t.child? e = some c) :
    (t.stepTo e).edge? = some e := by
  cases e with
  | literal key => rfl
  | wildcard => rfl
  | param =>
    obtain ⟨child, hchild, -⟩ := Option.map_eq_some_iff.mp hc
    rw [stepTo, descriptor?, hchild]
    rfl

/-- A row tells the length and the last edge of its address. -/
theorem place_of_rowFrom? {a : List Edge} {row : Row H}
    (h : t.rowFrom? depth step a = some row) :
    row.depth = depth + a.length ∧ row.step.edge? = a.getLast?.or step.edge? := by
  induction a generalizing t depth step with
  | nil =>
    obtain rfl := Option.some.inj h
    exact ⟨rfl, rfl⟩
  | cons e a ih =>
    obtain ⟨c, hc, h⟩ := Option.bind_eq_some_iff.mp h
    obtain ⟨length, last⟩ := ih h
    refine ⟨by rw [length, List.length_cons]; omega, ?_⟩
    rw [last, edge?_stepTo hc, List.getLast?_cons]
    cases a.getLast? <;> rfl

theorem place_of_rowAt? {a : List Edge} {row : Row H} (h : t.rowAt? a = some row) :
    (row.depth, row.step.edge?) = (a.length, a.getLast?) := by
  obtain ⟨depth, last⟩ := place_of_rowFrom? h
  rw [depth, last, Nat.zero_add]
  cases a.getLast? <;> rfl

/-- The depths and last edges of the rows tell the addresses. -/
theorem Ordered.retrace_rows (h : t.Ordered) :
    retrace [] (t.rows.map fun row => (row.depth, row.step.edge?)) = t.nodes.map Prod.fst := by
  have places : (t.rows.map fun row => (row.depth, row.step.edge?)) =
      (t.nodes.map Prod.fst).map fun a => (a.length, a.getLast?) := by
    symm
    rw [← List.forall₂_eq_eq_eq, List.forall₂_map_left_iff, List.forall₂_map_right_iff]
    exact h.forall₂_rows.imp fun a row shown => (place_of_rowAt? shown).symm
  rw [places, h.retrace_nodes]

end Rows

end Tree

end Routing
