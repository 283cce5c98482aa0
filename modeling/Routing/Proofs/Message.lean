import Mathlib.Data.List.Infix
import Routing.Proofs.OneLine

/-!
# Messages of faults

A quoted text ends with the first quote in it that is not escaped, so that whatever follows it can
be told from it (`Text.quoted_append_inj`): an escape is told by its first letters, and a code point
ends at its brace. The message of a fault therefore tells which fault it is and what is at fault in
it, and every message is on one line, whatever texts it quotes.

Main statements: `Fault.message_injective`, `Fault.oneLine_message`.
-/

namespace Routing

/-! ### Quoted texts -/

namespace Text

theorem toDigits_inj {m n : Nat} (h : Nat.toDigits 16 m = Nat.toDigits 16 n) : m = n := by
  have digit : ∀ i < 16, ∀ j < 16, i.digitChar = j.digitChar → i = j := by decide
  have long (k : Nat) (c d : Char) : [c] ≠ Nat.toDigits 16 k ++ [d] := by
    intro single
    rw [← List.nil_append [c]] at single
    exact Nat.toDigits_ne_nil (List.append_inj' single rfl).1.symm
  induction m using Nat.strong_induction_on generalizing n with
  | _ m ih =>
    rw [Nat.toDigits_eq_if (n := m) (by decide), Nat.toDigits_eq_if (n := n) (by decide)] at h
    split_ifs at h with hm hn hn
    · exact digit m hm n hn (List.singleton_inj.mp h)
    · exact (long _ _ _ h).elim
    · exact (long _ _ _ h.symm).elim
    · obtain ⟨front, last⟩ := List.append_inj' h rfl
      have quotient := ih (m / 16) (by omega) front
      have remainder := digit (m % 16) (by omega) (n % 16) (by omega) (List.singleton_inj.mp last)
      omega

/-- The letters behind a backslash that stand for one character each. -/
def shortEscapes : List (Char × Char) :=
  [('0', '\x00'), ('t', '\t'), ('r', '\r'), ('n', '\n'), ('"', '"'), ('\\', '\\')]

/-- How a character is written in a quoted text. -/
inductive Written (c : Char) : List Char → Prop where
  | short (letter : Char) (h : (letter, c) ∈ shortEscapes) : Written c ['\\', letter]
  | shown (noSlash : c ≠ '\\') (noQuote : c ≠ '"') : Written c [c]
  | code : Written c (codeEscape c)

theorem written_escape (c : Char) : Written c (escape c) := by
  unfold escape
  split
  · exact .short '0' (by decide)
  · exact .short 't' (by decide)
  · exact .short 'r' (by decide)
  · exact .short 'n' (by decide)
  · exact .short '"' (by decide)
  · exact .short '\\' (by decide)
  · next noQuote noSlash =>
    split_ifs
    · exact .shown noSlash noQuote
    · exact .code

/-- A code point ends at the first brace. -/
theorem codeEscape_append_inj {c d : Char} {u v : List Char}
    (h : codeEscape c ++ u = codeEscape d ++ v) : c = d ∧ u = v := by
  have digits (n : Nat) (rest : List Char) :
      (Nat.toDigits 16 n ++ '}' :: rest).takeWhile (· ≠ '}') = Nat.toDigits 16 n := by
    have none : '}' ∉ Nat.toDigits 16 n := notMem_toDigits (by decide) n
    have before : ∀ c ∈ Nat.toDigits 16 n, decide (c ≠ '}') = true := fun c mem =>
      decide_eq_true fun brace => none (brace ▸ mem)
    rw [List.takeWhile_append_of_pos before]
    simp
  simp only [codeEscape, List.cons_append, List.nil_append, List.append_assoc, List.cons.injEq,
    true_and] at h
  have same : Nat.toDigits 16 c.toNat = Nat.toDigits 16 d.toNat := by
    rw [← digits _ u, h, digits]
  rw [same] at h
  exact ⟨Char.toNat_inj.mp (toDigits_inj same), (List.cons.inj (List.append_cancel_left h)).2⟩

theorem Written.append_inj {c d : Char} {x y u v : List Char} (hx : Written c x)
    (hy : Written d y) (h : x ++ u = y ++ v) : c = d ∧ u = v := by
  have letters : ∀ x ∈ shortEscapes, ∀ y ∈ shortEscapes, x.1 = y.1 → x.2 = y.2 := by decide
  have noCode : ∀ x ∈ shortEscapes, x.1 ≠ 'u' := by decide
  cases hx with
  | short letter mem =>
    cases hy with
    | short letter' mem' =>
      simp only [List.cons_append, List.nil_append, List.cons.injEq, true_and] at h
      exact ⟨letters _ mem _ mem' h.1, h.2⟩
    | shown noSlash _ => exact absurd (List.cons.inj h).1.symm noSlash
    | code => exact absurd (List.cons.inj (List.cons.inj h).2).1 (noCode _ mem)
  | shown noSlash _ =>
    cases hy with
    | short _ _ => exact absurd (List.cons.inj h).1 noSlash
    | shown _ _ => exact List.cons_eq_cons.mp h
    | code => exact absurd (List.cons.inj h).1 noSlash
  | code =>
    cases hy with
    | short letter mem => exact absurd (List.cons.inj (List.cons.inj h).2).1.symm (noCode _ mem)
    | shown noSlash _ => exact absurd (List.cons.inj h).1.symm noSlash
    | code => exact codeEscape_append_inj h

theorem Written.head?_ne {c : Char} {x : List Char} (h : Written c x) (u : List Char) :
    (x ++ u).head? ≠ some '"' := by
  cases h with
  | short _ _ => simp
  | shown _ noQuote => simpa using noQuote
  | code => simp [codeEscape]

/-- Escaped characters end at the first quote that is not part of an escape. -/
theorem flatMap_escape_append_inj {cs ds u v : List Char}
    (h : cs.flatMap escape ++ '"' :: u = ds.flatMap escape ++ '"' :: v) : cs = ds ∧ u = v := by
  induction cs generalizing ds with
  | nil =>
    cases ds with
    | nil => exact ⟨rfl, (List.cons.inj h).2⟩
    | cons d ds =>
      rw [List.flatMap_cons, List.append_assoc] at h
      exact absurd (congrArg List.head? h).symm ((written_escape d).head?_ne _)
  | cons c cs ih =>
    rw [List.flatMap_cons, List.append_assoc] at h
    cases ds with
    | nil => exact absurd (congrArg List.head? h) ((written_escape c).head?_ne _)
    | cons d ds =>
      rw [List.flatMap_cons, List.append_assoc] at h
      obtain ⟨rfl, later⟩ := (written_escape c).append_inj (written_escape d) h
      obtain ⟨rfl, same⟩ := ih later
      exact ⟨rfl, same⟩

/-- What follows a quoted text is told from it. -/
theorem quoted_append_inj {s t : String} {u v : List Char}
    (h : (quoted s).toList ++ u = (quoted t).toList ++ v) : s = t ∧ u = v := by
  rw [quoted, quoted, String.toList_ofList, String.toList_ofList] at h
  simp only [List.append_assoc, List.cons_append, List.nil_append, List.cons.injEq, true_and] at h
  obtain ⟨chars, rest⟩ := flatMap_escape_append_inj h
  exact ⟨String.toList_inj.mp chars, rest⟩

theorem quoted_injective : Function.Injective quoted := fun s t h =>
  (quoted_append_inj (u := []) (v := []) (by rw [h])).1

/-- A text quoted within another one is told from it. -/
theorem eq_of_quoted_within {before after s t : String}
    (h : before ++ quoted s ++ after = before ++ quoted t ++ after) : s = t :=
  quoted_injective ((String.append_right_inj before).mp ((String.append_left_inj after).mp h))

theorem oneLine_quoted_within {before after : String} (hb : OneLine before) (ha : OneLine after)
    (text : String) : OneLine (before ++ quoted text ++ after) :=
  oneLine_append.mpr ⟨oneLine_append.mpr ⟨hb, oneLine_quoted text⟩, ha⟩

end Text

/-! ### Reasons -/

namespace RouteFault

/-- The letter that the message starts with. -/
def letter : RouteFault → Char
  | .wildcardNotLast => 'w'
  | .emptyName => 'p'
  | .unknownKind _ => 'u'
  | .invalidCharacters _ => 's'

theorem head?_message (reason : RouteFault) :
    reason.message.toList.head? = some reason.letter := by
  unfold message letter
  cases reason <;> simp

/-- The message tells the reason. -/
theorem message_injective : Function.Injective message := by
  intro a b h
  have same : a.letter = b.letter := by
    rw [← Option.some_inj, ← head?_message, h, head?_message]
  cases a with
  | wildcardNotLast =>
    cases b with
    | wildcardNotLast => rfl
    | emptyName | unknownKind _ | invalidCharacters _ => simp [letter] at same
  | emptyName =>
    cases b with
    | emptyName => rfl
    | wildcardNotLast | unknownKind _ | invalidCharacters _ => simp [letter] at same
  | unknownKind kind =>
    cases b with
    | unknownKind other =>
      have quoted := (String.append_right_inj "unknown parameter type ").mp h
      rw [Text.quoted_injective quoted]
    | wildcardNotLast | emptyName | invalidCharacters _ => simp [letter] at same
  | invalidCharacters segment =>
    cases b with
    | invalidCharacters other =>
      obtain rfl : segment = other := Text.eq_of_quoted_within h
      rfl
    | wildcardNotLast | emptyName | unknownKind _ => simp [letter] at same

theorem oneLine_message (reason : RouteFault) : OneLine reason.message := by
  unfold message
  cases reason with
  | wildcardNotLast => decide
  | emptyName => decide
  | unknownKind kind => exact oneLine_append.mpr ⟨by decide, Text.oneLine_quoted kind⟩
  | invalidCharacters segment => exact Text.oneLine_quoted_within (by decide) (by decide) segment

end RouteFault

/-! ### Faults -/

namespace Fault

/-- The letters that the message starts with; three faults without a text share theirs. -/
def letters : Fault → List Char
  | .invalidSegment _ => ['P', 'a', 't']
  | .duplicateParam | .duplicateWildcard | .nothingToMerge => ['C', 'a', 'n']
  | .incompleteParam => ['P', 'a', 'r']
  | .invalidPattern _ _ => ['I', 'n', 'v']

theorem take_message (fault : Fault) : fault.message.toList.take 3 = fault.letters := by
  unfold message letters
  cases fault <;> simp

/-- **The message tells the fault**, with the text that is at fault and the reason. -/
theorem message_injective : Function.Injective message := by
  intro a b h
  have same : a.letters = b.letters := by rw [← take_message, h, take_message]
  cases a with
  | invalidSegment segment =>
    cases b with
    | invalidSegment other =>
      obtain rfl : segment = other := Text.eq_of_quoted_within h
      rfl
    | duplicateParam | duplicateWildcard | incompleteParam | nothingToMerge | invalidPattern _ _ =>
      simp [letters] at same
  | duplicateParam =>
    cases b with
    | duplicateParam => rfl
    | duplicateWildcard | nothingToMerge => exact absurd h (by decide)
    | invalidSegment _ | incompleteParam | invalidPattern _ _ => simp [letters] at same
  | duplicateWildcard =>
    cases b with
    | duplicateWildcard => rfl
    | duplicateParam | nothingToMerge => exact absurd h (by decide)
    | invalidSegment _ | incompleteParam | invalidPattern _ _ => simp [letters] at same
  | incompleteParam =>
    cases b with
    | incompleteParam => rfl
    | invalidSegment _ | duplicateParam | duplicateWildcard | nothingToMerge
    | invalidPattern _ _ => simp [letters] at same
  | nothingToMerge =>
    cases b with
    | nothingToMerge => rfl
    | duplicateParam | duplicateWildcard => exact absurd h (by decide)
    | invalidSegment _ | incompleteParam | invalidPattern _ _ => simp [letters] at same
  | invalidPattern pattern reason =>
    cases b with
    | invalidPattern other why =>
      have message (pattern : String) (reason : RouteFault) :
          (invalidPattern pattern reason).message =
            "Invalid route pattern " ++ (Text.quoted pattern ++ (": " ++ reason.message)) := by
        change "Invalid route pattern " ++ Text.quoted pattern ++ ": " ++ reason.message = _
        rw [String.append_assoc, String.append_assoc]
      rw [message, message, String.append_right_inj] at h
      have chars := congrArg String.toList h
      simp only [String.toList_append] at chars
      obtain ⟨rfl, rest⟩ := Text.quoted_append_inj chars
      have reasons := String.toList_inj.mp (List.append_cancel_left rest)
      rw [RouteFault.message_injective reasons]
    | invalidSegment _ | duplicateParam | duplicateWildcard | incompleteParam | nothingToMerge =>
      simp [letters] at same

/-- **Every message is on one line**, whatever texts it quotes. -/
theorem oneLine_message (fault : Fault) : OneLine fault.message := by
  unfold message
  cases fault with
  | invalidSegment segment => exact Text.oneLine_quoted_within (by decide) (by decide) segment
  | duplicateParam => decide
  | duplicateWildcard => decide
  | incompleteParam => decide
  | nothingToMerge => decide
  | invalidPattern pattern reason =>
    have front : OneLine ("Invalid route pattern " ++ Text.quoted pattern ++ ": ") :=
      Text.oneLine_quoted_within (by decide) (by decide) pattern
    exact oneLine_append.mpr ⟨front, reason.oneLine_message⟩

example : (invalidPattern "/\n:" .emptyName).message =
    "Invalid route pattern \"/\\n:\": parameter name is empty" := rfl

end Fault

end Routing
