import Routing.Proofs.Address
import Routing.Route.Pattern

/-!
# Single routes by address

The address of a route is the list of edges along its pieces. A `Sound` route, one whose literal
pieces are keys and whose wildcard comes last, is always built (`result_build`), into its `spine`:
the chain that has a position at every prefix of the address, a parameter wherever the route has
one, and its handler at the end. Every parsed route is `Plain` (`plain_of_parse`): it is sound, and
its parameters are texts and numbers.
-/

universe u

namespace Routing

/-- The members of a list in front of its last place. -/
theorem mem_dropLast_iff {α : Type u} {xs : List α} {x : α} :
    x ∈ xs.dropLast ↔ ∃ front rest, xs = front ++ x :: rest ∧ rest ≠ [] := by
  constructor
  · intro mem
    obtain ⟨front, rest, hsplit⟩ := List.append_of_mem mem
    have nonempty : xs ≠ [] := by
      rintro rfl
      simp at mem
    refine ⟨front, rest ++ [xs.getLast nonempty], ?_, by simp⟩
    rw [← List.cons_append, ← List.append_assoc, ← hsplit, List.dropLast_concat_getLast]
  · rintro ⟨front, rest, rfl, hne⟩
    rw [List.dropLast_append_of_ne_nil (by simp), List.dropLast_cons_of_ne_nil hne]
    simp

/-! ### Pieces and edges -/

namespace Piece

/-- The edge that a piece goes along. -/
def edge : Piece → Edge
  | .literal text => .literal text
  | .param _ => .param
  | .wildcard => .wildcard

def param? : Piece → Option Param
  | .param p => some p
  | .literal _ | .wildcard => none

theorem edge_eq_literal_iff {piece : Piece} {key : String} :
    piece.edge = .literal key ↔ piece = .literal key := by
  cases piece <;> simp [edge]

theorem edge_eq_wildcard_iff {piece : Piece} : piece.edge = .wildcard ↔ piece = .wildcard := by
  cases piece <;> simp [edge]

theorem param?_eq_some_iff {piece : Piece} {p : Param} :
    piece.param? = some p ↔ piece = .param p := by
  cases piece <;> simp [param?]

/-- The position in front of a piece, with one child behind it. -/
def wrap {H : Type u} (child : Tree H) (label : String) : Piece → Tree H
  | .literal text => .node label none [(text, child)] none none
  | .param p => .node label none [] (some (p, child)) none
  | .wildcard => .node label none [] none (some child)

section Wrap

variable {H : Type u} (child : Tree H) (label : String) (piece : Piece)

theorem child?_wrap (e : Edge) :
    (piece.wrap child label).child? e = if e = piece.edge then some child else none := by
  cases piece <;> cases e <;> simp [wrap, edge, Tree.child?, Tree.literal?, Dict.find?]

@[simp] theorem handler_wrap : (piece.wrap child label).handler = none := by
  cases piece <;> rfl

@[simp] theorem descriptor?_wrap : (piece.wrap child label).descriptor? = piece.param? := by
  cases piece <;> rfl

end Wrap

end Piece

namespace Route

/-- The edges along the pieces. -/
def address (r : Route) : List Edge := r.map Piece.edge

@[simp] theorem address_nil : address [] = [] := rfl

@[simp] theorem address_cons (piece : Piece) (r : Route) :
    address (piece :: r) = piece.edge :: address r := rfl

@[simp] theorem length_address (r : Route) : r.address.length = r.length := List.length_map ..

theorem address_append (r q : Route) : address (r ++ q) = r.address ++ q.address :=
  List.map_append ..

theorem literal_mem_address {r : Route} {key : String} :
    Edge.literal key ∈ r.address ↔ Piece.literal key ∈ r := by
  rw [address, List.mem_map]
  simp only [Piece.edge_eq_literal_iff, exists_eq_right]

/-! ### Spines -/

section Spine

variable {H : Type u} (handler : H)

/-- The chain of a route, its first position under the given label. -/
def spine (label : String) : Route → Tree H
  | [] => .node label (some handler) [] none none
  | piece :: rest => piece.wrap (spine (Route.label rest) rest) label

@[simp] theorem child?_spine_nil (label : String) (e : Edge) :
    (spine handler label []).child? e = none := by
  cases e <;> rfl

theorem isSome_at?_spine (label : String) (r : Route) (a : List Edge) :
    ((spine handler label r).at? a).isSome ↔ a <+: r.address := by
  induction r generalizing label a with
  | nil =>
    cases a with
    | nil => simp
    | cons e a => simp [Tree.at?_cons]
  | cons piece rest ih =>
    cases a with
    | nil => simp
    | cons e a =>
      rw [spine, Tree.at?_cons, Piece.child?_wrap, address_cons, List.cons_prefix_cons]
      by_cases he : e = piece.edge
      · simp [he, ih]
      · simp [he]

theorem handlerAt?_spine (label : String) (r : Route) (a : List Edge) :
    (spine handler label r).handlerAt? a = if r.address = a then some handler else none := by
  induction r generalizing label a with
  | nil =>
    cases a with
    | nil => rfl
    | cons e a => simp [Tree.handlerAt?_cons]
  | cons piece rest ih =>
    cases a with
    | nil => simp [spine, Tree.handlerAt?]
    | cons e a =>
      rw [spine, Tree.handlerAt?_cons, Piece.child?_wrap, address_cons]
      by_cases he : e = piece.edge
      · simp [he, ih]
      · simp [he, Ne.symm he]

theorem descriptorAt?_spine (label : String) (r : Route) (a : List Edge) :
    (spine handler label r).descriptorAt? a =
      if a <+: r.address then r[a.length]?.bind Piece.param? else none := by
  induction r generalizing label a with
  | nil =>
    cases a with
    | nil => rfl
    | cons e a => simp [Tree.descriptorAt?_cons]
  | cons piece rest ih =>
    cases a with
    | nil => simp [spine, Tree.descriptorAt?]
    | cons e a =>
      rw [spine, Tree.descriptorAt?_cons, Piece.child?_wrap, address_cons]
      by_cases he : e = piece.edge
      · simp [he, ih]
      · simp [he]

end Spine

/-! ### Sound routes -/

/-- Literal pieces are keys, and a wildcard comes last. -/
structure Sound (r : Route) : Prop where
  keys : ∀ text, Piece.literal text ∈ r → isKey text = true
  wildcard : r.hasInnerWildcard = false

theorem hasInnerWildcard_iff {r : Route} :
    r.hasInnerWildcard = true ↔ Piece.wildcard ∈ r.dropLast := by
  have isWildcard_iff (piece : Piece) : piece.isWildcard = true ↔ piece = .wildcard := by
    cases piece <;> simp [Piece.isWildcard]
  rw [hasInnerWildcard, List.any_eq_true]
  simp only [isWildcard_iff, exists_eq_right]

theorem hasInnerWildcard_cons (piece : Piece) (r : Route) :
    hasInnerWildcard (piece :: r) = (!r.isEmpty && piece.isWildcard || r.hasInnerWildcard) := by
  cases r <;> simp [hasInnerWildcard]

theorem sound_nil : Sound [] := ⟨by simp, rfl⟩

theorem Sound.nil_of_wildcard {front rest : Route} (h : Sound (front ++ .wildcard :: rest)) :
    rest = [] := by
  by_contra hne
  have inner := hasInnerWildcard_iff.mpr (mem_dropLast_iff.mpr ⟨front, rest, rfl, hne⟩)
  rw [h.wildcard] at inner
  cases inner

theorem sound_cons_iff {piece : Piece} {r : Route} :
    Sound (piece :: r) ↔ (∀ text, piece = .literal text → isKey text = true) ∧
      (piece = .wildcard → r = []) ∧ Sound r := by
  have hw : (!r.isEmpty && piece.isWildcard) = false ↔ (piece = .wildcard → r = []) := by
    cases piece <;> cases r <;> simp [Piece.isWildcard]
  constructor
  · rintro ⟨keys, wildcard⟩
    rw [hasInnerWildcard_cons, Bool.or_eq_false_iff] at wildcard
    exact ⟨fun text h => keys text (by simp [h]), hw.mp wildcard.1,
      fun text h => keys text (List.mem_cons_of_mem _ h), wildcard.2⟩
  · rintro ⟨key, last, keys, wildcard⟩
    refine ⟨fun text h => ?_, by rw [hasInnerWildcard_cons, hw.mpr last, wildcard]; rfl⟩
    rcases List.mem_cons.mp h with h | h
    · exact key text h.symm
    · exact keys text h

/-- A sound piece is attached without a fault. -/
theorem attach_eq_ok {H : Type u} (child : Tree H) {piece : Piece}
    (key : ∀ text, piece = .literal text → isKey text = true) :
    ∃ d, piece.attach child = .ok d ∧ ∀ label, d.freeze label = piece.wrap child label := by
  cases piece with
  | literal text =>
    refine ⟨{ literals := [(text, child)] }, ?_, fun _ => rfl⟩
    rw [Piece.attach, Draft.accepted_addLiteral, if_pos (key text rfl)]
    rfl
  | param p => exact ⟨_, rfl, fun _ => rfl⟩
  | wildcard => exact ⟨_, rfl, fun _ => rfl⟩

theorem result_chain {H : Type u} (handler : H) (label : String) {r : Route} (h : r.Sound) :
    (chain handler label r).result = .ok (spine handler label r) := by
  induction r generalizing label with
  | nil => rfl
  | cons piece rest ih =>
    obtain ⟨key, -, hrest⟩ := sound_cons_iff.mp h
    obtain ⟨d, hd, hfreeze⟩ := attach_eq_ok (spine handler (Route.label rest) rest) key
    rw [chain, Logged.result_bind, ih _ hrest]
    simp [Except.bind, hd, Draft.announceFreeze, hfreeze, spine]

/-- **A sound route is always built**, into its spine. -/
theorem result_build {H : Type u} (handler : H) {r : Route} (h : r.Sound) :
    (build handler r).result = .ok (spine handler Tree.rootLabel r) := by
  have hchain := result_chain handler Tree.rootLabel h
  rw [build, h.wildcard, if_neg (by simp)]
  split
  · exact hchain
  · rw [Logged.result_bind, hchain]
    rfl

/-- A chain comes from the chain behind its first piece. -/
theorem chain_cons_eq_ok {H : Type u} {handler : H} {label : String} {piece : Piece} {r : Route}
    {t : Tree H} (h : (chain handler label (piece :: r)).result = .ok t) :
    ∃ child d, (chain handler (Route.label r) r).result = .ok child ∧
      piece.attach child = .ok d ∧ t = d.freeze label := by
  rw [chain] at h
  obtain ⟨child, hchild, h⟩ := Logged.bind_eq_ok_iff.mp h
  obtain ⟨d, hd, h⟩ := Logged.bind_eq_ok_iff.mp h
  exact ⟨child, d, hchild, hd, (Except.ok.inj h).symm⟩

theorem keys_of_chain {H : Type u} {handler : H} {label : String} {r : Route} {t : Tree H}
    (h : (chain handler label r).result = .ok t) {text : String} (mem : .literal text ∈ r) :
    isKey text = true := by
  induction r generalizing label t with
  | nil => cases mem
  | cons piece r ih =>
    obtain ⟨child, d, hchild, hd, -⟩ := chain_cons_eq_ok h
    rcases List.mem_cons.mp mem with rfl | mem
    · rw [Piece.attach, Draft.accepted_addLiteral] at hd
      split_ifs at hd with key
      exact key
    · exact ih hchild mem

theorem chain_of_build {H : Type u} {handler : H} {r : Route} {t : Tree H}
    (h : (build handler r).result = .ok t) :
    r.hasInnerWildcard = false ∧ (chain handler Tree.rootLabel r).result = .ok t := by
  unfold build at h
  split_ifs at h with inner empty
  · cases h
  · exact ⟨Bool.eq_false_iff.mpr inner, h⟩
  · obtain ⟨t', hchain, h⟩ := Logged.bind_eq_ok_iff.mp h
    obtain rfl : t' = t := Except.ok.inj h
    exact ⟨Bool.eq_false_iff.mpr inner, hchain⟩

/-- Nothing but a sound route is built. -/
theorem sound_of_build {H : Type u} {handler : H} {r : Route} {t : Tree H}
    (h : (build handler r).result = .ok t) : r.Sound := by
  obtain ⟨wildcard, hchain⟩ := chain_of_build h
  exact ⟨fun text mem => keys_of_chain hchain mem, wildcard⟩

end Route

/-! ### Parsed routes -/

/-- What a piece of a pattern can be; a wildcard only in the last place. -/
inductive Piece.Plain (isLast : Bool) : Piece → Prop where
  | literal (text : String) (key : isKey text = true) : Plain isLast (.literal text)
  | text (name : String) : Plain isLast (.param (.text name))
  | number (name : String) : Plain isLast (.param (.number name))
  | wildcard (last : isLast = true) : Plain isLast .wildcard

/-- Every piece is one that a pattern can have in its place. -/
inductive Route.Plain : Route → Prop where
  | nil : Plain []
  | cons {piece : Piece} {rest : Route} (head : piece.Plain rest.isEmpty) (tail : Plain rest) :
      Plain (piece :: rest)

namespace Piece

theorem plain_of_ofKind {name kind : String} {piece : Piece} (h : ofKind name kind = .ok piece)
    (isLast : Bool) : piece.Plain isLast := by
  unfold ofKind at h
  split_ifs at h
  · obtain rfl := Except.ok.inj h; exact .text name
  · obtain rfl := Except.ok.inj h; exact .number name

theorem plain_of_parseParam {cs : List Char} {piece : Piece} (h : parseParam cs = .ok piece)
    (isLast : Bool) : piece.Plain isLast := by
  unfold parseParam at h
  dsimp only at h
  split_ifs at h
  split at h
  · exact plain_of_ofKind h isLast
  · exact plain_of_ofKind h isLast

theorem plain_of_parse {isLast : Bool} {cs : List Char} {piece : Piece}
    (h : parse isLast cs = .ok piece) : piece.Plain isLast := by
  unfold parse at h
  split at h
  · split_ifs at h with last
    obtain rfl := Except.ok.inj h
    exact .wildcard last
  · exact plain_of_parseParam h isLast
  · dsimp only at h
    split_ifs at h with key
    obtain rfl := Except.ok.inj h
    exact .literal _ key

end Piece

namespace Route

theorem parsePieces_cons_eq_ok {cs : List Char} {rest : List (List Char)} {r : Route}
    (h : parsePieces (cs :: rest) = .ok r) :
    ∃ piece pieces, Piece.parse rest.isEmpty cs = .ok piece ∧ parsePieces rest = .ok pieces ∧
      r = piece :: pieces := by
  rw [parsePieces] at h
  cases hp : Piece.parse rest.isEmpty cs with
  | error e => rw [hp] at h; cases h
  | ok piece =>
    rw [hp] at h
    cases hr : parsePieces rest with
    | error e => rw [hr] at h; cases h
    | ok pieces =>
      rw [hr] at h
      exact ⟨piece, pieces, rfl, rfl, (Except.ok.inj h).symm⟩

theorem isEmpty_of_parsePieces {texts : List (List Char)} {r : Route}
    (h : parsePieces texts = .ok r) : r.isEmpty = texts.isEmpty := by
  cases texts with
  | nil => obtain rfl : [] = r := Except.ok.inj h; rfl
  | cons cs rest => obtain ⟨_, _, -, -, rfl⟩ := parsePieces_cons_eq_ok h; rfl

theorem plain_of_parsePieces {texts : List (List Char)} {r : Route}
    (h : parsePieces texts = .ok r) : r.Plain := by
  induction texts generalizing r with
  | nil => obtain rfl : [] = r := Except.ok.inj h; exact .nil
  | cons cs rest ih =>
    obtain ⟨piece, pieces, hp, hr, rfl⟩ := parsePieces_cons_eq_ok h
    rw [← isEmpty_of_parsePieces hr] at hp
    exact .cons (Piece.plain_of_parse hp) (ih hr)

/-- **Every parsed route is plain.** -/
theorem plain_of_parse {pattern : String} {r : Route} (h : parse pattern = .ok r) : r.Plain := by
  unfold parse at h
  split at h
  · obtain rfl : [] = r := Except.ok.inj h
    exact .nil
  · cases hb : parsePieces ((patternBody pattern).splitOn '/') with
    | error e => rw [hb] at h; cases h
    | ok pieces =>
      rw [hb] at h
      obtain rfl : pieces = r := Except.ok.inj h
      exact plain_of_parsePieces hb

theorem Plain.sound {r : Route} (h : r.Plain) : r.Sound := by
  induction h with
  | nil => exact sound_nil
  | cons head _ ih =>
    refine sound_cons_iff.mpr ⟨?_, ?_, ih⟩
    · rintro text rfl
      cases head
      assumption
    · rintro rfl
      cases head
      exact List.isEmpty_iff.mp ‹_›

theorem Plain.param {r : Route} (h : r.Plain) {p : Param} (hp : .param p ∈ r) :
    ∃ name, p = .text name ∨ p = .number name := by
  induction h with
  | nil => simp at hp
  | cons head _ ih =>
    rcases List.mem_cons.mp hp with rfl | hp
    · cases head with
      | text name => exact ⟨name, .inl rfl⟩
      | number name => exact ⟨name, .inr rfl⟩
    · exact ih hp

end Route

end Routing
