import Routing.Proofs.Fault
import Routing.Proofs.Nodes
import Routing.Table.Names

/-!
# The first fault of a plan

A clause can be faulty because of the clauses before it on the same node, and a node has the fault
of its earliest faulty clause. `Plan.preorder` lists the nodes of a plan, each in front of those
behind it; also those are listed that a later clause for the same key replaces. Building a plan
fails with the fault of the first faulty node in this order, and not otherwise: the draft of a node
without a fault refuses nothing (`neverRefuses_of_firstFault`).

Main statement: `build_first_fault`.
-/

universe u v

namespace Routing

/-- A text without one slash in front, if there is one. -/
def Path.withoutSlash (text : String) : String := String.ofList (Path.dropSlash text.toList)

/-- A place in a list with one more member is one in the list or that of the last member. -/
theorem append_cons_eq_concat {α : Type u} {xs before after : List α} {x y : α}
    (h : xs ++ [x] = before ++ y :: after) :
    (∃ rest, xs = before ++ y :: rest) ∨ xs = before ∧ x = y := by
  rcases after.eq_nil_or_concat' with rfl | ⟨rest, last, rfl⟩
  · obtain ⟨rfl, single⟩ := List.append_inj' h rfl
    exact .inr ⟨rfl, List.singleton_inj.mp single⟩
  · rw [← List.cons_append, ← List.append_assoc] at h
    exact .inl ⟨rest, (List.append_inj' h rfl).1⟩

/-! ### Faulty clauses -/

namespace Clause

variable {H : Type u} {C : Type v}

/-- What is wrong with a clause behind others: a text that is no key, a second parameter, a second
wildcard. -/
inductive FaultyAfter (before : List (Clause H C)) : Clause H C → Fault → Prop where
  | path (text : String) (child : C) (noKey : isKey (Path.withoutSlash text) = false) :
    FaultyAfter before (.path text child) (.invalidSegment (Path.withoutSlash text))
  | param (p : Param) (child : C) (second : ∃ q other, .param q other ∈ before) :
    FaultyAfter before (.param p child) .duplicateParam
  | wildcard (child : C) (second : ∃ other, .wildcard other ∈ before) :
    FaultyAfter before (.wildcard child) .duplicateWildcard

/-- One of the clauses is faulty. -/
def Faulty (clauses : List (Clause H C)) : Prop :=
  ∃ before clause after fault, clauses = before ++ clause :: after ∧
    FaultyAfter before clause fault

/-- The fault of the earliest faulty clause. -/
def HasFault (clauses : List (Clause H C)) (fault : Fault) : Prop :=
  ∃ before clause after, clauses = before ++ clause :: after ∧ ¬ Faulty before ∧
    FaultyAfter before clause fault

def isParam : Clause H C → Bool
  | .param _ _ => true
  | _ => false

def isWildcard : Clause H C → Bool
  | .wildcard _ => true
  | _ => false

theorem any_isParam {xs : List (Clause H C)} :
    xs.any isParam = true ↔ ∃ q other, .param q other ∈ xs := by
  rw [List.any_eq_true]
  constructor
  · rintro ⟨clause, mem, h⟩
    cases clause with
    | param q other => exact ⟨q, other, mem⟩
    | handler _ | literal _ _ | wildcard _ => cases h
  · rintro ⟨q, other, mem⟩
    exact ⟨_, mem, rfl⟩

theorem any_isWildcard {xs : List (Clause H C)} :
    xs.any isWildcard = true ↔ ∃ other, .wildcard other ∈ xs := by
  rw [List.any_eq_true]
  constructor
  · rintro ⟨clause, mem, h⟩
    cases clause with
    | wildcard other => exact ⟨other, mem⟩
    | handler _ | literal _ _ | param _ _ => cases h
  · rintro ⟨other, mem⟩
    exact ⟨_, mem, rfl⟩

section FirstFault

variable {before xs : List (Clause H C)} {clause : Clause H C} {fault : Fault}

/-- A text that is no key is faulty as it stands: it could follow one more slash. -/
theorem FaultyAfter.literal {text : String} (child : C) (noKey : isKey text = false) :
    FaultyAfter before (.literal text child) (.invalidSegment text) := by
  have stripped : Path.withoutSlash ("/" ++ text) = text := by
    simp [Path.withoutSlash, Path.dropSlash]
  have faulty : FaultyAfter before (.path ("/" ++ text) child) _ :=
    .path _ child (by rwa [stripped])
  rw [stripped] at faulty
  change FaultyAfter before (.literal (Path.withoutSlash ("/" ++ text)) child) _ at faulty
  rwa [stripped] at faulty

theorem firstFault_append (p w : Bool) (xs ys : List (Clause H C)) :
    firstFault p w (xs ++ ys) = (firstFault p w xs).or
      (firstFault (p || xs.any isParam) (w || xs.any isWildcard) ys) := by
  induction xs generalizing p w with
  | nil => simp [firstFault]
  | cons clause xs ih =>
    cases clause with
    | handler h => simp [firstFault, ih, isParam, isWildcard]
    | literal text child =>
      by_cases key : isKey text = true <;> simp [firstFault, key, ih, isParam, isWildcard]
    | param q child => cases p <;> simp [firstFault, ih, isParam, isWildcard]
    | wildcard child => cases w <;> simp [firstFault, ih, isParam, isWildcard]

theorem firstFault_singleton :
    firstFault (before.any isParam) (before.any isWildcard) [clause] = some fault ↔
      FaultyAfter before clause fault := by
  constructor
  · intro h
    cases clause with
    | handler handler => cases h
    | literal text child =>
      rw [firstFault] at h
      split_ifs at h with key
      · cases h
      · obtain rfl := Option.some.inj h
        exact .literal child (Bool.eq_false_iff.mpr key)
    | param p child =>
      rw [firstFault] at h
      split_ifs at h with second
      · obtain rfl := Option.some.inj h
        exact .param p child (any_isParam.mp second)
      · cases h
    | wildcard child =>
      rw [firstFault] at h
      split_ifs at h with second
      · obtain rfl := Option.some.inj h
        exact .wildcard child (any_isWildcard.mp second)
      · cases h
  · intro h
    cases h with
    | path text child noKey =>
      change firstFault _ _ [.literal (Path.withoutSlash text) child] = _
      rw [firstFault, if_neg (by rw [noKey]; exact Bool.false_ne_true)]
    | param p child second => rw [firstFault, if_pos (any_isParam.mpr second)]
    | wildcard child second => rw [firstFault, if_pos (any_isWildcard.mpr second)]

theorem firstFault_concat (xs : List (Clause H C)) (clause : Clause H C) :
    firstFault false false (xs ++ [clause]) = (firstFault false false xs).or
      (firstFault (xs.any isParam) (xs.any isWildcard) [clause]) := by
  rw [firstFault_append, Bool.false_or, Bool.false_or]

/-! ### The earliest faulty clause -/

theorem faulty_concat_iff :
    Faulty (xs ++ [clause]) ↔ Faulty xs ∨ ∃ fault, FaultyAfter xs clause fault := by
  constructor
  · rintro ⟨before, c, after, fault, hsplit, faulty⟩
    rcases append_cons_eq_concat hsplit with ⟨rest, rfl⟩ | ⟨rfl, rfl⟩
    · exact .inl ⟨before, c, rest, fault, rfl, faulty⟩
    · exact .inr ⟨fault, faulty⟩
  · rintro (⟨before, c, after, fault, rfl, faulty⟩ | ⟨fault, faulty⟩)
    · exact ⟨before, c, after ++ [clause], fault, by simp, faulty⟩
    · exact ⟨xs, clause, [], fault, rfl, faulty⟩

theorem hasFault_concat_iff : HasFault (xs ++ [clause]) fault ↔
    HasFault xs fault ∨ ¬ Faulty xs ∧ FaultyAfter xs clause fault := by
  constructor
  · rintro ⟨before, c, after, hsplit, earliest, faulty⟩
    rcases append_cons_eq_concat hsplit with ⟨rest, rfl⟩ | ⟨rfl, rfl⟩
    · exact .inl ⟨before, c, rest, rfl, earliest, faulty⟩
    · exact .inr ⟨earliest, faulty⟩
  · rintro (⟨before, c, after, rfl, earliest, faulty⟩ | ⟨earliest, faulty⟩)
    · exact ⟨before, c, after ++ [clause], by simp, earliest, faulty⟩
    · exact ⟨xs, clause, [], rfl, earliest, faulty⟩

theorem not_faulty_nil : ¬ Faulty ([] : List (Clause H C)) := by
  rintro ⟨before, clause, after, fault, hsplit, -⟩
  simp at hsplit

theorem not_hasFault_nil : ¬ HasFault ([] : List (Clause H C)) fault := by
  rintro ⟨before, clause, after, hsplit, -⟩
  simp at hsplit

theorem firstFault_eq_none_iff : firstFault false false xs = none ↔ ¬ Faulty xs := by
  -- from the end, as a clause is faulty or not because of those before it
  induction xs using List.reverseRecOn with
  | nil => exact iff_of_true rfl not_faulty_nil
  | append_singleton xs clause ih =>
    rw [firstFault_concat, Option.or_eq_none_iff, ih, faulty_concat_iff, not_or,
      Option.eq_none_iff_forall_ne_some]
    simp only [ne_eq, firstFault_singleton, not_exists]

theorem firstFault_eq_some_iff : firstFault false false xs = some fault ↔ HasFault xs fault := by
  induction xs using List.reverseRecOn with
  | nil => exact iff_of_false nofun not_hasFault_nil
  | append_singleton xs clause ih =>
    rw [firstFault_concat, Option.or_eq_some_iff, ih, firstFault_eq_none_iff, firstFault_singleton,
      hasFault_concat_iff]

/-- Literal clauses without a fault have keys. -/
theorem isKey_of_firstFault (h : firstFault false false xs = none) {text : String} {child : C}
    (mem : .literal text child ∈ xs) : isKey text = true := by
  by_contra noKey
  obtain ⟨before, after, rfl⟩ := List.append_of_mem mem
  have faulty : FaultyAfter before (.literal text child) _ :=
    .literal child (Bool.eq_false_iff.mpr noKey)
  exact firstFault_eq_none_iff.mp h ⟨before, _, after, _, rfl, faulty⟩

end FirstFault

end Clause

/-! ### Drafts that refuse nothing -/

namespace Draft

open Clause

variable {H : Type u}

/-- Whatever assembling a position adds to its draft is taken: each literal child at any time, the
parameter behind the literal children, and the wildcard behind these. -/
structure NeverRefuses (s : Staged H (Logged Fault (Tree H))) : Prop where
  literal : ∀ text x, (text, x) ∈ s.literals →
    ∀ (d : Draft H) (t : Tree H), (d.addLiteral text t).result = .ok ()
  param : ∀ d, (addLiterals { handler := s.handler } s.literals).result = .ok d →
    ∀ (p : Param) (t : Tree H), (d.setParam p t).result = .ok ()
  wildcard : ∀ d₁ d₂, (addLiterals { handler := s.handler } s.literals).result = .ok d₁ →
    (addParam d₁ s.param).result = .ok d₂ → ∀ t : Tree H, (d₂.setWildcard t).result = .ok ()

theorem neverRefuses_of_firstFault {clauses : List (Clause H (Logged Fault (Tree H)))}
    (h : firstFault false false clauses = none) : NeverRefuses (.ofClauses clauses) where
  literal := by
    intro text x mem d t
    rw [Staged.literals_ofClauses, mem_allLiterals] at mem
    rw [addLiteral, if_pos (isKey_of_firstFault h mem)]
  param := by
    intro d hd p t
    rw [Staged.literals_ofClauses] at hd
    obtain ⟨frame, -, -⟩ := addLiterals_eq_ok rfl hd
    have free : d.param = none := by rw [frame]
    rw [setParam, free]
  wildcard := by
    intro d₁ d₂ h₁ h₂ t
    rw [Staged.literals_ofClauses] at h₁
    obtain ⟨frame₁, -, -⟩ := addLiterals_eq_ok rfl h₁
    have free : d₁.param = none := by rw [frame₁]
    obtain ⟨frame₂, -, -⟩ := addParam_eq_ok free h₂
    have free : d₂.wildcard = none := by rw [frame₂, frame₁]
    rw [setWildcard, free]

end Draft

/-! ### Nodes in their order -/

namespace Plan

open Clause

variable {H : Type u}

mutual

/-- The nodes of a plan: the plan itself, then those behind its literal keys in the order of their
clauses, those behind the first parameter and those behind the first wildcard. -/
def preorder : Plan H → List (Plan H)
  | .mk clauses =>
    .mk clauses :: (preorderLiterals clauses ++ preorderParam clauses ++ preorderWildcard clauses)
termination_by structural plan => plan

/-- The nodes behind the literal keys, those of replaced clauses too. -/
def preorderLiterals : List (Clause H (Plan H)) → List (Plan H)
  | [] => []
  | .literal _ child :: rest => child.preorder ++ preorderLiterals rest
  | _ :: rest => preorderLiterals rest
termination_by structural clauses => clauses

/-- The nodes behind the first parameter. -/
def preorderParam : List (Clause H (Plan H)) → List (Plan H)
  | [] => []
  | .param _ child :: _ => child.preorder
  | _ :: rest => preorderParam rest
termination_by structural clauses => clauses

/-- The nodes behind the first wildcard. -/
def preorderWildcard : List (Clause H (Plan H)) → List (Plan H)
  | [] => []
  | .wildcard child :: _ => child.preorder
  | _ :: rest => preorderWildcard rest
termination_by structural clauses => clauses

end

/-- The fault that a node has of its own. -/
def ownFault? (plan : Plan H) : Option Fault := firstFault false false plan.clauses

theorem firstFault_buildClauses (p w : Bool) (clauses : List (Clause H (Plan H))) :
    firstFault p w (buildClauses clauses) = firstFault p w clauses := by
  induction clauses generalizing p w with
  | nil => rfl
  | cons clause rest ih => cases clause <;> simp [buildClauses, buildClause, firstFault, ih]

section Faults

variable {clauses : List (Clause H (Plan H))} {d : Draft H}

/-- All children that clauses add have the fault of their first faulty node. -/
def FaultsInOrder (clauses : List (Clause H (Plan H))) : Prop :=
  ∀ clause ∈ clauses, ∀ child, clause.child? = some child →
    ∀ label, fault? (child.2.buildAt label).result = child.2.preorder.findSome? ownFault?

theorem FaultsInOrder.tail {clause : Clause H (Plan H)} (h : FaultsInOrder (clause :: clauses)) :
    FaultsInOrder clauses :=
  fun c mem => h c (List.mem_cons_of_mem _ mem)

theorem FaultsInOrder.head {clause : Clause H (Plan H)} (h : FaultsInOrder (clause :: clauses))
    {child : Piece × Plan H} (hc : clause.child? = some child) (label : String) :
    fault? (child.2.buildAt label).result = child.2.preorder.findSome? ownFault? :=
  h clause (List.mem_cons_self ..) child hc label

theorem fault?_addLiterals (below : FaultsInOrder clauses)
    (taken : ∀ text x, (text, x) ∈ allLiterals (buildClauses clauses) →
      ∀ (d : Draft H) (t : Tree H), (d.addLiteral text t).result = .ok ()) :
    fault? (d.addLiterals (allLiterals (buildClauses clauses))).result =
      (preorderLiterals clauses).findSome? ownFault? := by
  induction clauses generalizing d with
  | nil => rfl
  | cons clause rest ih =>
    cases clause with
    | literal text child =>
      have later := fun d : Draft H =>
        ih (d := d) below.tail fun text x mem => taken text x (List.mem_cons_of_mem _ mem)
      rw [buildClauses, buildClause, allLiterals, Draft.addLiterals, Logged.result_bind,
        preorderLiterals, List.findSome?_append, ← below.head rfl text]
      refine fault?_bind fun t _ => ?_
      have added := Draft.Edited.accepted_eq_ok_iff.mpr
        ⟨taken text _ (List.mem_cons_self ..) d t, rfl⟩
      rw [Logged.result_bind, Logged.result_ofExcept, added]
      exact later _
    | handler _ | param _ _ | wildcard _ => exact ih below.tail taken

theorem fault?_addParam (below : FaultsInOrder clauses)
    (taken : ∀ (p : Param) (t : Tree H), (d.setParam p t).result = .ok ()) :
    fault? (d.addParam (firstParam? (buildClauses clauses))).result =
      (preorderParam clauses).findSome? ownFault? := by
  induction clauses with
  | nil => rfl
  | cons clause rest ih =>
    cases clause with
    | param p child =>
      rw [buildClauses, buildClause, firstParam?, Draft.addParam, Logged.result_bind,
        preorderParam, ← below.head rfl p.label]
      refine fault?_bind_of_none fun t _ => ?_
      rw [Logged.result_ofExcept, Draft.Edited.accepted_eq_ok_iff.mpr ⟨taken p t, rfl⟩]
      rfl
    | handler _ | literal _ _ | wildcard _ => exact ih below.tail

theorem fault?_addWildcard (below : FaultsInOrder clauses)
    (taken : ∀ t : Tree H, (d.setWildcard t).result = .ok ()) :
    fault? (d.addWildcard (firstWildcard? (buildClauses clauses))).result =
      (preorderWildcard clauses).findSome? ownFault? := by
  induction clauses with
  | nil => rfl
  | cons clause rest ih =>
    cases clause with
    | wildcard child =>
      rw [buildClauses, buildClause, firstWildcard?, Draft.addWildcard, Logged.result_bind,
        preorderWildcard, ← below.head rfl Tree.wildcardLabel]
      refine fault?_bind_of_none fun t _ => ?_
      rw [Logged.result_ofExcept, Draft.Edited.accepted_eq_ok_iff.mpr ⟨taken t, rfl⟩]
      rfl
    | handler _ | literal _ _ | param _ _ => exact ih below.tail

/-- A node's own fault comes before those of its children. -/
theorem fault?_assemble (below : FaultsInOrder clauses) (label : String) :
    fault? (Draft.assemble label (.ofClauses (buildClauses clauses))).result =
      (preorder (.mk clauses)).findSome? ownFault? := by
  have here : ownFault? (.mk clauses) = firstFault false false clauses := rfl
  rw [preorder, List.findSome?_cons, here]
  rw [Draft.assemble, Staged.fault_ofClauses, firstFault_buildClauses]
  cases own : firstFault false false clauses with
  | some fault => rfl
  | none =>
    have never : Draft.NeverRefuses (.ofClauses (buildClauses clauses)) :=
      Draft.neverRefuses_of_firstFault ((firstFault_buildClauses ..).trans own)
    rw [Staged.ofClauses_eq] at never ⊢
    dsimp only at never ⊢
    -- children are built before they are added, so each stage has the first fault of its nodes
    rw [List.append_assoc, List.findSome?_append, ← fault?_addLiterals below never.literal,
      Logged.result_bind]
    refine fault?_bind fun d₁ h₁ => ?_
    rw [List.findSome?_append, ← fault?_addParam below (never.param d₁ h₁), Logged.result_bind]
    refine fault?_bind fun d₂ h₂ => ?_
    rw [← fault?_addWildcard below (never.wildcard d₁ d₂ h₁ h₂), Logged.result_bind]
    exact fault?_bind_of_none fun _ _ => rfl

theorem fault?_buildAt (plan : Plan H) (label : String) :
    fault? (plan.buildAt label).result = plan.preorder.findSome? ownFault? := by
  induction plan using Plan.induct generalizing label with
  | mk clauses ih => exact fault?_assemble ih label

theorem fault?_build (plan : Plan H) :
    fault? plan.build.result = plan.preorder.findSome? ownFault? := by
  rw [build, Logged.result_bind, ← fault?_buildAt plan Tree.rootLabel]
  exact fault?_bind_of_none fun _ _ => rfl

end Faults

/-- **Building a plan reports the first fault in pre-order.** A plan is not built exactly if one of
its nodes is faulty, and the fault is that of the first faulty node: the plan itself, then the nodes
behind its literal keys in the order of their clauses, then those behind its first parameter, then
those behind its first wildcard. The draft of a node without a fault refuses nothing. -/
theorem build_first_fault (plan : Plan H) :
    ((∃ fault, plan.build.result = .error fault) ↔ ∃ n ∈ plan.preorder, Faulty n.clauses) ∧
    (∀ fault, plan.build.result = .error fault ↔ ∃ before node after,
      plan.preorder = before ++ node :: after ∧ (∀ n ∈ before, ¬ Faulty n.clauses) ∧
      HasFault node.clauses fault) ∧
    ∀ n ∈ plan.preorder, ¬ Faulty n.clauses →
      Draft.NeverRefuses (.ofClauses (buildClauses n.clauses)) := by
  have none_iff (n : Plan H) : n.ownFault? = none ↔ ¬ Faulty n.clauses := firstFault_eq_none_iff
  have some_iff (n : Plan H) (fault : Fault) :
      n.ownFault? = some fault ↔ HasFault n.clauses fault := firstFault_eq_some_iff
  refine ⟨?_, fun fault => ?_, fun n _ hn => ?_⟩
  · have faulty_iff : (∃ fault, plan.preorder.findSome? ownFault? = some fault) ↔
        ∃ n ∈ plan.preorder, Faulty n.clauses := by
      rw [← Option.isSome_iff_exists, List.findSome?_isSome_iff]
      simp only [← Option.not_isSome_iff_eq_none, not_iff_not] at none_iff
      simp only [none_iff]
    simp only [← faulty_iff, ← fault?_build, fault?_eq_some_iff]
  · rw [← fault?_eq_some_iff, fault?_build, List.findSome?_eq_some_iff]
    simp only [none_iff, some_iff]
    constructor
    · rintro ⟨before, node, after, hsplit, has, clean⟩
      exact ⟨before, node, after, hsplit, clean, has⟩
    · rintro ⟨before, node, after, hsplit, clean, has⟩
      exact ⟨before, node, after, hsplit, has, clean⟩
  · rw [← firstFault_eq_none_iff, ← firstFault_buildClauses] at hn
    exact Draft.neverRefuses_of_firstFault hn

theorem build_first_fault_replaced :
    let twice : Plan Names := .mk [.text "x" (.mk []), .number "y" (.mk [])]
    let plan : Plan Names :=
      .mk [.wildcard (.mk [.path "b c" (.mk [])]), .path "/a" twice, .path "a" (.mk [])]
    (∃ n ∈ plan.preorder, Faulty n.clauses) ∧ plan.build.result = .error .duplicateParam ∧
      ¬ Faulty plan.clauses ∧ Draft.NeverRefuses (.ofClauses (buildClauses plan.clauses)) := by
  intro twice plan
  obtain ⟨fails, faults, taken⟩ := build_first_fault plan
  have clean : ¬ Faulty plan.clauses := firstFault_eq_none_iff.mp rfl
  have second : HasFault twice.clauses .duplicateParam := firstFault_eq_some_iff.mp rfl
  have order : ∃ after, plan.preorder = [plan] ++ twice :: after := ⟨_, rfl⟩
  obtain ⟨after, hsplit⟩ := order
  have reported : plan.build.result = .error .duplicateParam := by
    refine (faults _).mpr ⟨[plan], twice, after, hsplit, fun n mem => ?_, second⟩
    obtain rfl := List.mem_singleton.mp mem
    exact clean
  exact ⟨fails.mp ⟨_, reported⟩, reported, clean, taken plan (by simp [hsplit]) clean⟩

end Plan

end Routing
