import Mathlib.Data.List.Forall2
import Routing.Proofs.Keyed
import Routing.Proofs.OneLine
import Routing.Proofs.Path
import Routing.Proofs.Preorder

/-!
# Outlines of listings

A line of a listing is indented to its depth, and the word behind the blanks tells the edge in front
of its position, whatever is shown after that word (`Table.place_rowText`). A listing without line
feeds inside its lines is cut into these lines again (`linesOf_join`), and depths and edges give the
addresses one after the other: `outline` reads them from the text (`Table.outline_listing`).

Main statement: `Table.listing_determines_addresses`.
-/

namespace Routing

/-! ### Lines of texts -/

/-- The lines of a text whose last line ends in a line feed, too. -/
def linesOf (text : String) : List (List Char) := (text.toList.splitOn '\n').dropLast

theorem splitOn_flatMap {lines : List String} (h : ∀ line ∈ lines, OneLine line) :
    (lines.flatMap fun line => (line ++ "\n").toList).splitOn '\n' =
      lines.map String.toList ++ [[]] := by
  induction lines with
  | nil => exact List.splitOn_eq_singleton List.not_mem_nil
  | cons line rest ih =>
    obtain ⟨here, below⟩ := List.forall_mem_cons.mp h
    have first : (line ++ "\n").toList = line.toList ++ ['\n'] := String.toList_append
    rw [List.flatMap_cons, first, List.append_assoc, List.singleton_append,
      List.splitOn_append_cons_self, List.splitOn_eq_singleton here, ih below]
    rfl

/-- Lines that are put together are cut apart again. -/
theorem linesOf_join {lines : List String} (h : ∀ line ∈ lines, OneLine line) :
    linesOf (String.join (lines.map (· ++ "\n"))) = lines.map String.toList := by
  rw [linesOf, String.toList_join, List.flatMap_map, splitOn_flatMap h, List.dropLast_concat]

/-! ### Places of lines -/

/-- The edge that a word stands for; none for the word of the root. -/
def wordEdge? : List Char → Option Edge
  | ['/'] => none
  | ['*'] => some .wildcard
  | ':' :: _ => some .param
  | key => some (.literal (String.ofList key))

/-- The depth that a line is indented to, and the edge that the word behind its blanks stands
for. -/
def placeOf (line : List Char) : Nat × Option Edge :=
  ((line.takeWhile (· = ' ')).length / 2,
    wordEdge? ((line.dropWhile (· = ' ')).takeWhile (· ≠ ' ')))

theorem blanks_replicate (n : Nat) {text : List Char} (h : text.head? ≠ some ' ') :
    ((List.replicate n ' ' ++ text).takeWhile (· = ' ')).length = n ∧
      (List.replicate n ' ' ++ text).dropWhile (· = ' ') = text := by
  have blank : ∀ c ∈ List.replicate n ' ', decide (c = ' ') = true := fun c hc =>
    decide_eq_true (List.eq_of_mem_replicate hc)
  rw [List.takeWhile_append_of_pos blank, List.dropWhile_append_of_pos blank]
  cases text with
  | nil => simp
  | cons c text =>
    have first : c ≠ ' ' := by simpa using h
    simp [first]

theorem wordEdge?_of_isKey {key : String} (h : isKey key = true) :
    wordEdge? key.toList = some (.literal key) := by
  have others {c : Char} (hc : isKeyChar c = false) : c ∉ key.toList := Path.not_mem_of_isKey h hc
  unfold wordEdge?
  split
  · next heq => exact absurd (by simp [heq]) (others (c := '/') rfl)
  · next heq => exact absurd (by simp [heq]) (others (c := '*') rfl)
  · next heq => exact absurd (by simp [heq]) (others (c := ':') rfl)
  · rw [String.ofList_toList]

/-! ### Legible rows -/

/-- Behind a key, or behind a parameter that is shown on one line. -/
def Step.Legible : Step → Prop
  | .root => True
  | .literal key => isKey key = true
  | .param p => OneLine p.name ∧ OneLine p.form.inline
  | .wildcard => True

/-- All that a row shows is on one line, and its step can be told. -/
structure Row.Legible (row : Row Names) : Prop where
  step : row.step.Legible
  label : OneLine row.label
  names : ∀ names, row.handler = some names → ∀ name ∈ names.list, OneLine name

namespace Tree

variable {t : Tree Names}

theorem legible_stepTo (keys : Dict.Keyed t.literals) (lines : t.OnOneLine) {e : Edge}
    {c : Tree Names} (hc : t.child? e = some c) : (t.stepTo e).Legible := by
  cases e with
  | literal key =>
    have mem : (key, c) ∈ t.literals := mem_of_find? hc
    exact keys.isKey (key, c) mem
  | wildcard => trivial
  | param =>
    obtain ⟨⟨p, child⟩, hchild, -⟩ := Option.map_eq_some_iff.mp hc
    have hp : t.descriptor? = some p := by rw [descriptor?, hchild, Option.map_some]
    rw [stepTo, hp]
    exact lines.param p hp

theorem legible_of_rowFrom? (keyed : t.Keyed) (lines : t.Everywhere Tree.OnOneLine) {depth : Nat}
    {step : Step} (hstep : step.Legible) {a : List Edge} {row : Row Names}
    (h : t.rowFrom? depth step a = some row) : row.Legible := by
  induction a generalizing t depth step with
  | nil =>
    have here : t.OnOneLine := lines [] t rfl
    obtain rfl := Option.some.inj h
    exact ⟨hstep, here.label, here.names⟩
  | cons e a ih =>
    obtain ⟨c, hc, h⟩ := Option.bind_eq_some_iff.mp h
    obtain ⟨here, below⟩ := keyed_iff.mp keyed
    obtain ⟨onLine, linesBelow⟩ := everywhere_iff.mp lines
    exact ih (below e c hc) (linesBelow e c hc) (legible_stepTo here onLine hc) h

theorem legible_of_rowAt? (keyed : t.Keyed) (lines : t.Everywhere Tree.OnOneLine) {a : List Edge}
    {row : Row Names} (h : t.rowAt? a = some row) : row.Legible := by
  have root : Step.root.Legible := trivial
  exact legible_of_rowFrom? keyed lines root h

end Tree

namespace Table

theorem oneLine_listStep {step : Step} (h : step.Legible) : OneLine (listStep step) := by
  cases step with
  | root => decide
  | literal key => exact Path.not_mem_of_isKey h rfl
  | param p =>
    rw [listStep, oneLine_append, oneLine_append, oneLine_append]
    exact ⟨⟨⟨by decide, h.1⟩, by decide⟩, h.2⟩
  | wildcard => decide

theorem oneLine_listNames {handler : Option Names}
    (h : ∀ names, handler = some names → ∀ name ∈ names.list, OneLine name) :
    OneLine (listNames handler) := by
  cases handler with
  | none => decide
  | some names =>
    rw [listNames, oneLine_append, oneLine_intercalate (by decide)]
    exact ⟨by decide, h names rfl⟩

theorem oneLine_rowText {row : Row Names} (h : row.Legible) : OneLine (rowText row) := by
  have blanks : OneLine (String.ofList (List.replicate (2 * row.depth) ' ')) := by
    rw [OneLine, String.toList_ofList]
    exact fun feed => absurd (List.eq_of_mem_replicate feed) (by decide)
  simp only [rowText, oneLine_append, blanks, oneLine_listStep h.step, h.label,
    oneLine_listNames h.names, true_and, and_true]
  decide

/-- The first word of a step tells its edge: a parameter's name may hold blanks, but its mark comes
first. -/
theorem wordEdge?_listStep {step : Step} (h : step.Legible) (rest : List Char) :
    ((listStep step).toList ++ ' ' :: rest).head? ≠ some ' ' ∧
      wordEdge? (((listStep step).toList ++ ' ' :: rest).takeWhile (· ≠ ' ')) = step.edge? := by
  cases step with
  | root => exact ⟨nofun, rfl⟩
  | wildcard => exact ⟨nofun, rfl⟩
  | param p =>
    have mark : (listStep (.param p)).toList = ':' :: (p.name ++ " " ++ p.form.inline).toList := by
      simp [listStep]
    rw [mark]
    exact ⟨by simp, rfl⟩
  | literal key =>
    have noBlank : ' ' ∉ key.toList := Path.not_mem_of_isKey h rfl
    have nonempty : key.toList ≠ [] := fun none =>
      Path.ne_empty_of_isKey h (String.toList_eq_nil_iff.mp none)
    have letters : ∀ c ∈ key.toList, decide (c ≠ ' ') = true := fun c hc =>
      decide_eq_true fun blank => noBlank (blank ▸ hc)
    rw [listStep, List.head?_append_of_ne_nil _ nonempty, List.takeWhile_append_of_pos letters,
      List.takeWhile_cons_of_neg (by decide), List.append_nil]
    exact ⟨fun blank => noBlank (List.mem_of_head? blank), wordEdge?_of_isKey h⟩

theorem place_rowText {row : Row Names} (h : row.step.Legible) :
    ((rowText row).toList.takeWhile (· = ' ')).length = 2 * row.depth ∧
      placeOf (rowText row).toList = (row.depth, row.step.edge?) := by
  have split : (rowText row).toList = List.replicate (2 * row.depth) ' ' ++
      ((listStep row.step).toList ++ ' ' ::
        ("[" ++ row.label ++ "]" ++ listNames row.handler).toList) := by
    simp [rowText]
  obtain ⟨first, word⟩ := wordEdge?_listStep h
    ("[" ++ row.label ++ "]" ++ listNames row.handler).toList
  obtain ⟨indent, rest⟩ := blanks_replicate (2 * row.depth) first
  rw [split]
  refine ⟨indent, ?_⟩
  rw [placeOf, indent, rest, word, Nat.mul_div_cancel_left _ two_pos]

/-! ### Listings -/

/-- The addresses in the order of the lines of a listing, read from its text. -/
def outline (text : String) : List (List Edge) :=
  Tree.retrace [] ((linesOf text).map placeOf)

/-- What a listing shows of the position at an address, without the line feed. -/
structure LineAt (t : Tree Names) (a : List Edge) (line : String) : Prop where
  oneLine : OneLine line
  indent : (line.toList.takeWhile (· = ' ')).length = 2 * a.length
  row : ∃ row, t.rowAt? a = some row ∧ listRow row = line ++ "\n"

theorem listing_eq (t : Tree Names) :
    listing t = String.join ((t.rows.map rowText).map (· ++ "\n")) := by
  rw [listing, List.map_map]
  rfl

section Legible

variable {t : Tree Names} (keyed : t.Keyed) (lines : t.Everywhere Tree.OnOneLine)
include keyed lines

theorem lineAt_rowText {a : List Edge} {row : Row Names} (h : t.rowAt? a = some row) :
    LineAt t a (rowText row) := by
  have legible := Tree.legible_of_rowAt? keyed lines h
  have depth : row.depth = a.length := congrArg Prod.fst (Tree.place_of_rowAt? h)
  refine ⟨oneLine_rowText legible, ?_, row, h, rfl⟩
  rw [(place_rowText legible.step).1, depth]

theorem forall₂_lineAt :
    List.Forall₂ (LineAt t) (t.nodes.map Prod.fst) (t.rows.map rowText) :=
  List.forall₂_map_right_iff.mpr <|
    keyed.ordered.forall₂_rows.imp fun _ _ h => lineAt_rowText keyed lines h

theorem legible_of_mem_rows : ∀ row ∈ t.rows, row.Legible := by
  intro row mem
  obtain ⟨a, ha⟩ := keyed.ordered.exists_address mem
  exact Tree.legible_of_rowAt? keyed lines ha

/-- **The addresses are read from the text**, one for each line. -/
theorem outline_listing : outline (listing t) = t.nodes.map Prod.fst := by
  have legible := legible_of_mem_rows keyed lines
  have oneLine : ∀ line ∈ t.rows.map rowText, OneLine line :=
    List.forall_mem_map.mpr fun row mem => oneLine_rowText (legible row mem)
  have places : ((t.rows.map rowText).map String.toList).map placeOf =
      t.rows.map fun row => (row.depth, row.step.edge?) := by
    rw [List.map_map, List.map_map]
    exact List.map_congr_left fun row mem => (place_rowText (legible row mem).step).2
  rw [outline, listing_eq, linesOf_join oneLine, places, keyed.ordered.retrace_rows]

end Legible

example : outline "/ [r]\n  k [a] => * x\n    :b c [d] => /, e\n  * [f]\n" =
    [[], [.literal "k"], [.literal "k", .param], [.wildcard]] := by decide

/-- **The listing of a table tells the addresses of its tree.** If no pattern and no name of a table
has a line feed, the listing of its tree is one line for each position, in the order of the
addresses: the literal children by key, then the one behind the parameter, then the one behind the
wildcard, and each position in front of those below it. A line is indented by two blanks for each
edge of its address. Two such tables with the same listing have positions at the same addresses. -/
theorem listing_determines_addresses {entries : List Entry} {t : Tree Names}
    (built : (build entries).result = .ok t)
    (lines : ∀ e ∈ entries, OneLine e.pattern ∧ OneLine e.name) :
    (∃ (addresses : List (List Edge)) (texts : List String), addresses.Pairwise AddressLt ∧
      (∀ a, a ∈ addresses ↔ (t.at? a).isSome) ∧
      List.Forall₂ (LineAt t) addresses texts ∧
      listing t = String.join (texts.map (· ++ "\n"))) ∧
    ∀ (others : List Entry) (u : Tree Names), (build others).result = .ok u →
      (∀ e ∈ others, OneLine e.pattern ∧ OneLine e.name) → listing t = listing u →
        ∀ a, (t.at? a).isSome ↔ (u.at? a).isSome := by
  have keyed := Route.keyed_of_compose (build_eq_ok_iff.mp built)
  have onLines := everywhere_onOneLine_of_build built lines
  refine ⟨⟨_, _, keyed.ordered.pairwise_nodes, fun a => keyed.ordered.mem_map_nodes,
    forall₂_lineAt keyed onLines, listing_eq t⟩, fun others u built' lines' same a => ?_⟩
  have keyed' := Route.keyed_of_compose (build_eq_ok_iff.mp built')
  have onLines' := everywhere_onOneLine_of_build built' lines'
  have addresses : t.nodes.map Prod.fst = u.nodes.map Prod.fst := by
    rw [← outline_listing keyed onLines, same, outline_listing keyed' onLines']
  rw [← keyed.ordered.mem_map_nodes, addresses, keyed'.ordered.mem_map_nodes]

/-- One name with a comma and two names are listed alike. -/
theorem listing_determines_addresses_joined :
    let tree (names : Names) : Tree Names :=
      .node "::ROOT::" none [] (some (.text "b [c] => k", .node "::WILDCARD::" none [] none
        (some (.node "::BOTTOM::" (some names) [] none none)))) none
    (build [⟨"/:b [c] => k/*", "x, y"⟩]).result = .ok (tree ⟨["x, y"]⟩) ∧
      (build [⟨":b [c] => k/*", "x"⟩, ⟨"/:b [c] => k/*/", "y"⟩]).result = .ok (tree ⟨["x", "y"]⟩) ∧
      listing (tree ⟨["x, y"]⟩) = listing (tree ⟨["x", "y"]⟩) ∧
      ∀ a, ((tree ⟨["x, y"]⟩).at? a).isSome ↔ ((tree ⟨["x", "y"]⟩).at? a).isSome := by
  intro tree
  have built : (build [⟨"/:b [c] => k/*", "x, y"⟩]).result = .ok (tree ⟨["x, y"]⟩) := rfl
  have built' : (build [⟨":b [c] => k/*", "x"⟩, ⟨"/:b [c] => k/*/", "y"⟩]).result =
      .ok (tree ⟨["x", "y"]⟩) := by
    let r : Route := [.param (.text "b [c] => k"), .wildcard]
    have parsed : Route.parseAll [(":b [c] => k/*", (⟨["x"]⟩ : Names)),
        ("/:b [c] => k/*/", ⟨["y"]⟩)] = .ok [(r, ⟨["x"]⟩), (r, ⟨["y"]⟩)] := rfl
    exact build_eq_ok_iff.mpr (Route.compose_eq_ok_iff.mpr ⟨_, parsed, rfl⟩)
  have same : listing (tree ⟨["x, y"]⟩) = listing (tree ⟨["x", "y"]⟩) := by
    have names : listNames (some ⟨["x, y"]⟩) = listNames (some ⟨["x", "y"]⟩) := by decide
    simp [listing, tree, Tree.rows, Tree.rowsFrom, Tree.literalRows, Tree.paramRows,
      Tree.wildcardRows, Dict.sorted, listRow, rowText, names]
  obtain ⟨-, addresses⟩ := listing_determines_addresses built (by decide)
  exact ⟨built, built', same, addresses _ _ built' (by decide) same⟩

end Table

end Routing
