import Routing.Proofs.Composed
import Routing.Proofs.Everywhere
import Routing.Proofs.Grammar
import Routing.Table.Entry
import Routing.Table.Listing

/-!
# Texts on one line

A text is on one line if it has no line feed. A quoted text always is, whatever it quotes. The
pieces of a pattern on one line show texts on one line, and so does every position of a tree that is
built from patterns and names on one line (`Table.everywhere_onOneLine_of_build`).
-/

namespace Routing

/-- No line feed is in the text. -/
def OneLine (text : String) : Prop := '\n' ∉ text.toList

instance : DecidablePred OneLine := fun text => inferInstanceAs (Decidable ('\n' ∉ text.toList))

theorem oneLine_append {s t : String} : OneLine (s ++ t) ↔ OneLine s ∧ OneLine t := by
  rw [OneLine, String.toList_append, List.mem_append, not_or]
  rfl

theorem oneLine_intercalate {separator : String} (h : OneLine separator) {texts : List String} :
    OneLine (separator.intercalate texts) ↔ ∀ text ∈ texts, OneLine text := by
  induction texts with
  | nil => simp [OneLine]
  | cons text texts ih =>
    by_cases single : texts = []
    · subst single
      simp
    · rw [String.intercalate_cons_of_ne_nil single, oneLine_append, oneLine_append, ih,
        List.forall_mem_cons]
      exact and_congr_left fun _ => and_iff_left h

/-! ### Quoted texts -/

namespace Text

theorem notMem_toDigits {c : Char} (h : ∀ i < 16, i.digitChar ≠ c) (n : Nat) :
    c ∉ Nat.toDigits 16 n := by
  induction n using Nat.strong_induction_on with
  | _ n ih =>
    rw [Nat.toDigits_eq_if (by decide)]
    split_ifs with small
    · rw [List.mem_singleton]
      exact fun here => h n small here.symm
    · rw [List.mem_append, List.mem_singleton]
      rintro (front | last)
      · exact ih (n / 16) (by omega) front
      · exact h (n % 16) (by omega) last.symm

theorem notMem_escape (c : Char) : '\n' ∉ escape c := by
  unfold escape
  split
  · decide
  · decide
  · decide
  · decide
  · decide
  · decide
  · next other _ _ =>
    split_ifs
    · intro feed
      exact other (List.mem_singleton.mp feed).symm
    · have digits := notMem_toDigits (c := '\n') (by decide) c.toNat
      simp [codeEscape, digits]

theorem oneLine_quoted (text : String) : OneLine (quoted text) := by
  rw [OneLine, quoted, String.toList_ofList]
  simp [notMem_escape]

end Text

theorem Param.oneLine_form {kind : String} (h : OneLine kind) (name : String) :
    OneLine (formOf kind name []).inline := by
  have shown : (formOf kind name []).inline =
      kind ++ " \x7b " ++ ("name" ++ ": " ++ Text.quoted name) ++ " \x7d" := rfl
  rw [shown]
  simp only [oneLine_append, h, Text.oneLine_quoted, true_and, and_true]
  decide

/-! ### Pieces -/

/-- What is shown of a piece is on one line. -/
def Piece.OnOneLine : Piece → Prop
  | .literal text => OneLine text
  | .param p => OneLine p.name ∧ OneLine p.form.inline
  | .wildcard => True

theorem Piece.onOneLine_of_spells {isLast : Bool} {text : String} {piece : Piece}
    (h : Spells isLast text piece) (line : OneLine text) : piece.OnOneLine := by
  cases h with
  | wildcard => trivial
  | name => exact ⟨(oneLine_append.mp line).2, Param.oneLine_form (by decide) _⟩
  | text =>
    simp only [oneLine_append] at line
    exact ⟨line.1.1.2, Param.oneLine_form (by decide) _⟩
  | number =>
    simp only [oneLine_append] at line
    exact ⟨line.1.1.2, Param.oneLine_form (by decide) _⟩
  | literal => exact line

theorem Piece.OnOneLine.label {piece : Piece} (h : piece.OnOneLine) : OneLine piece.label := by
  cases piece with
  | literal text =>
    rw [Piece.label, oneLine_append, oneLine_append]
    exact ⟨⟨by decide, h⟩, by decide⟩
  | param p =>
    rw [Piece.label, Param.label, oneLine_append, oneLine_append]
    exact ⟨⟨by decide, h.1⟩, by decide⟩
  | wildcard => decide

namespace Route

theorem onOneLine_of_spelled {texts : List String} {r : Route} (h : Spelled texts r)
    (lines : ∀ text ∈ texts, OneLine text) : ∀ piece ∈ r, piece.OnOneLine := by
  induction h with
  | nil => exact fun piece mem => absurd mem List.not_mem_nil
  | cons head _ ih =>
    obtain ⟨here, below⟩ := List.forall_mem_cons.mp lines
    exact List.forall_mem_cons.mpr ⟨Piece.onOneLine_of_spells head here, ih below⟩

theorem Body.oneLine {pattern body : String} (h : Body pattern body) (line : OneLine pattern) :
    OneLine body := by
  obtain ⟨rest, front, back⟩ := h
  have hrest : OneLine rest := by
    rcases front with rfl | ⟨rfl, -⟩
    · exact (oneLine_append.mp line).2
    · exact line
  rcases back with rfl | ⟨rfl, -⟩
  · exact (oneLine_append.mp hrest).1
  · exact hrest

theorem onOneLine_of_parse {pattern : String} {r : Route} (h : parse pattern = .ok r)
    (line : OneLine pattern) : ∀ piece ∈ r, piece.OnOneLine := by
  obtain ⟨body, hbody⟩ := exists_body pattern
  obtain ⟨texts, hcut⟩ := exists_cut body
  refine onOneLine_of_spelled ((parse_eq_ok_iff hbody hcut).mp h) ?_
  have slash : OneLine "/" := by decide
  rw [← oneLine_intercalate slash, hcut.join]
  exact hbody.oneLine line

end Route

/-! ### Positions -/

/-- What is shown of a position and of the parameter behind it is on one line. -/
structure Tree.OnOneLine (n : Tree Names) : Prop where
  label : OneLine n.label
  names : ∀ names, n.handler = some names → ∀ name ∈ names.list, OneLine name
  param : ∀ p, n.descriptor? = some p → OneLine p.name ∧ OneLine p.form.inline

theorem Tree.OnOneLine.merge {mine theirs : Tree Names} (hm : mine.OnOneLine)
    (hs : theirs.OnOneLine) : (mine.merge theirs).OnOneLine := by
  refine ⟨?_, fun names hnames => ?_, fun p hp => ?_⟩
  · rw [label_merge]
    exact hs.label
  · rw [handler_merge] at hnames
    have both (ours others : Names) (ho : ∀ name ∈ ours.list, OneLine name)
        (ht : ∀ name ∈ others.list, OneLine name) :
        ∀ name ∈ (Combine.combine ours others).list, OneLine name :=
      List.forall_mem_append.mpr ⟨ho, ht⟩
    exact forall_merge both hm.names hs.names names hnames
  · rw [descriptor?_merge] at hp
    exact forall_merge (fun _ _ _ last => last) hm.param hs.param p hp

theorem Route.everywhere_onOneLine_spine {names : Names}
    (hnames : ∀ name ∈ names.list, OneLine name) {label : String} (hlabel : OneLine label)
    {r : Route} (h : ∀ piece ∈ r, piece.OnOneLine) :
    (spine names label r).Everywhere Tree.OnOneLine := by
  induction r generalizing label with
  | nil =>
    refine everywhere_spine_nil_iff.mpr ⟨hlabel, fun names' heq => ?_, nofun⟩
    obtain rfl : names = names' := Option.some.inj heq
    exact hnames
  | cons piece rest ih =>
    obtain ⟨here, below⟩ := List.forall_mem_cons.mp h
    refine everywhere_spine_cons_iff.mpr
      ⟨⟨?_, fun names' heq => ?_, fun p hp => ?_⟩, ih ?_ below⟩
    · cases piece <;> exact hlabel
    · rw [spine, Piece.handler_wrap] at heq
      cases heq
    · rw [spine, Piece.descriptor?_wrap, Piece.param?_eq_some_iff] at hp
      subst hp
      exact here
    · cases rest with
      | nil => decide
      | cons next _ => exact (below next (List.mem_cons_self ..)).label

/-- **A table of texts on one line is built into positions on one line.** -/
theorem Table.everywhere_onOneLine_of_build {entries : List Entry} {t : Tree Names}
    (built : (build entries).result = .ok t)
    (lines : ∀ e ∈ entries, OneLine e.pattern ∧ OneLine e.name) :
    t.Everywhere Tree.OnOneLine := by
  obtain ⟨routes, parsed, merged⟩ := Route.compose_eq_ok_iff.mp (build_eq_ok_iff.mp built)
  refine Tree.everywhere_of_mergeAll (fun _ _ mine theirs => mine.merge theirs) merged ?_
  intro s hs
  obtain ⟨r, hr, rfl⟩ := List.mem_map.mp hs
  obtain ⟨pattern, mem, hparse⟩ := (Route.mem_parseAll parsed r).mp hr
  obtain ⟨e, he, heq⟩ := List.mem_map.mp mem
  obtain ⟨rfl, hname⟩ := Prod.mk.inj heq
  obtain ⟨linePattern, lineName⟩ := lines e he
  have pieces := Route.onOneLine_of_parse hparse linePattern
  refine Route.everywhere_onOneLine_spine ?_ (by decide) pieces
  rw [← hname]
  exact List.forall_mem_singleton.mpr lineName

end Routing
