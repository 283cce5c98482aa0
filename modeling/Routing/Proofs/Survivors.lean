import Routing.Proofs.Spine
import Routing.Proofs.Staged

/-!
# What a plan ends up with

Of the clauses of a plan that add a child along one edge, the last one counts: `Plan.child?` is the
child that survives there. A plan that is built `Describes` its tree: along every edge the tree has
the child that the surviving plan describes or none, and its handler and its parameter are those
that the plan ends up with.
-/

universe u v

namespace Routing

namespace Clause

variable {H : Type u} {C : Type v}

/-! ### Surviving children -/

/-- The child that a clause adds, behind the piece that leads to it. -/
def child? : Clause H C → Option (Piece × C)
  | .handler _ => none
  | .literal text child => some (.literal text, child)
  | .param p child => some (.param p, child)
  | .wildcard child => some (.wildcard, child)

/-- The child that the last clause for an edge adds there. -/
def last? (e : Edge) : List (Clause H C) → Option (Piece × C)
  | [] => none
  | clause :: rest => (last? e rest).or (clause.child?.filter fun c => c.1.edge = e)

/-- A child counts unless a later clause adds one along its edge. -/
theorem last?_cons_eq_some_iff {e : Edge} {clause : Clause H C} {rest : List (Clause H C)}
    {child : Piece × C} :
    last? e (clause :: rest) = some child ↔ last? e rest = some child ∨
      last? e rest = none ∧ clause.child? = some child ∧ child.1.edge = e := by
  rw [last?, Option.or_eq_some_iff, Option.filter_eq_some_iff, decide_eq_true_eq]

theorem edge_of_last? {e : Edge} {clauses : List (Clause H C)} {child : Piece × C}
    (h : last? e clauses = some child) : child.1.edge = e := by
  induction clauses with
  | nil => cases h
  | cons clause rest ih =>
    rcases last?_cons_eq_some_iff.mp h with h | ⟨-, -, h⟩
    · exact ih h
    · exact h

theorem mem_of_last? {e : Edge} {clauses : List (Clause H C)} {child : Piece × C}
    (h : last? e clauses = some child) : ∃ clause ∈ clauses, clause.child? = some child := by
  induction clauses with
  | nil => cases h
  | cons clause rest ih =>
    rcases last?_cons_eq_some_iff.mp h with h | ⟨-, h, -⟩
    · obtain ⟨later, hmem, hc⟩ := ih h
      exact ⟨later, List.mem_cons_of_mem _ hmem, hc⟩
    · exact ⟨clause, List.mem_cons_self .., h⟩

theorem last?_cons_of_ne {e : Edge} {clause : Clause H C} {rest : List (Clause H C)}
    (h : ∀ child, clause.child? = some child → child.1.edge ≠ e) :
    last? e (clause :: rest) = last? e rest := by
  have none : clause.child?.filter (fun c => c.1.edge = e) = none := by
    rw [Option.filter_eq_none_iff]
    intro child hchild
    simpa using h child hchild
  rw [last?, none, Option.or_none]

/-- A slot that is taken is not filled again by clauses without a fault. -/
theorem last?_of_firstFault {clauses : List (Clause H C)} {p w : Bool}
    (h : firstFault p w clauses = none) :
    (p = true → last? .param clauses = none) ∧ (w = true → last? .wildcard clauses = none) := by
  induction clauses generalizing p w with
  | nil => exact ⟨fun _ => rfl, fun _ => rfl⟩
  | cons clause rest ih =>
    cases clause with
    | handler handler =>
      obtain ⟨hp, hw⟩ := ih h
      rw [last?_cons_of_ne (by simp [child?]), last?_cons_of_ne (by simp [child?])]
      exact ⟨hp, hw⟩
    | literal text child =>
      rw [firstFault] at h
      split_ifs at h
      obtain ⟨hp, hw⟩ := ih h
      rw [last?_cons_of_ne (by simp [child?, Piece.edge]),
        last?_cons_of_ne (by simp [child?, Piece.edge])]
      exact ⟨hp, hw⟩
    | param q child =>
      rw [firstFault] at h
      split_ifs at h with taken
      refine ⟨fun hp => absurd hp taken, fun hw => ?_⟩
      rw [last?_cons_of_ne (by simp [child?, Piece.edge])]
      exact (ih h).2 hw
    | wildcard child =>
      rw [firstFault] at h
      split_ifs at h with taken
      refine ⟨fun hp => ?_, fun hw => absurd hw taken⟩
      rw [last?_cons_of_ne (by simp [child?, Piece.edge])]
      exact (ih h).1 hp

/-- Without a fault the first parameter is the last. -/
theorem last?_param {w : Bool} {clauses : List (Clause H C)}
    (h : firstFault false w clauses = none) :
    last? .param clauses = (firstParam? clauses).map fun first => (.param first.1, first.2) := by
  induction clauses generalizing w with
  | nil => rfl
  | cons clause rest ih =>
    cases clause with
    | handler handler =>
      rw [last?_cons_of_ne (by simp [child?])]
      exact ih h
    | literal _ _ | wildcard _ =>
      rw [firstFault] at h
      split_ifs at h
      rw [last?_cons_of_ne (by simp [child?, Piece.edge])]
      exact ih h
    | param p x =>
      rw [firstFault, if_neg Bool.false_ne_true] at h
      have none : last? .param rest = none := (last?_of_firstFault h).1 rfl
      simp [last?, none, child?, Piece.edge, firstParam?]

/-- Without a fault the first wildcard is the last. -/
theorem last?_wildcard {p : Bool} {clauses : List (Clause H C)}
    (h : firstFault p false clauses = none) :
    last? .wildcard clauses = (firstWildcard? clauses).map fun child => (.wildcard, child) := by
  induction clauses generalizing p with
  | nil => rfl
  | cons clause rest ih =>
    cases clause with
    | handler handler =>
      rw [last?_cons_of_ne (by simp [child?])]
      exact ih h
    | literal _ _ | param _ _ =>
      rw [firstFault] at h
      split_ifs at h
      rw [last?_cons_of_ne (by simp [child?, Piece.edge])]
      exact ih h
    | wildcard x =>
      rw [firstFault, if_neg Bool.false_ne_true] at h
      have none : last? .wildcard rest = none := (last?_of_firstFault h).2 rfl
      simp [last?, none, child?, Piece.edge, firstWildcard?]

end Clause

/-! ### Drafts -/

namespace Draft

open Clause

variable {H : Type u}

theorem addLiterals_cons_eq_ok {d d' : Draft H} {text : String} {x : Logged Fault (Tree H)}
    {rest : List (String × Logged Fault (Tree H))}
    (h : (addLiterals d ((text, x) :: rest)).result = .ok d') :
    ∃ t, x.result = .ok t ∧ isKey text = true ∧
      (addLiterals { d with literals := Dict.insert text t d.literals } rest).result = .ok d' := by
  rw [addLiterals] at h
  obtain ⟨t, hx, h⟩ := Logged.bind_eq_ok_iff.mp h
  obtain ⟨e, he, h⟩ := Logged.bind_eq_ok_iff.mp h
  by_cases key : isKey text = true
  · rw [Logged.result_ofExcept, accepted_addLiteral, if_pos key] at he
    obtain rfl := Except.ok.inj he
    exact ⟨t, hx, key, h⟩
  · rw [Logged.result_ofExcept, accepted_addLiteral, if_neg key] at he
    cases he

/-- Of the literal children the last one under each key stays, and nothing else changes. -/
theorem find?_addLiterals {d d' : Draft H} {clauses : List (Clause H (Logged Fault (Tree H)))}
    (h : (addLiterals d (allLiterals clauses)).result = .ok d') :
    d' = { d with literals := d'.literals } ∧
      ∀ key, match last? (.literal key) clauses with
        | none => Dict.find? key d'.literals = Dict.find? key d.literals
        | some child => isKey key = true ∧
          ∃ t, child.2.result = .ok t ∧ Dict.find? key d'.literals = some t := by
  induction clauses generalizing d with
  | nil =>
    obtain rfl : d = d' := Except.ok.inj h
    exact ⟨rfl, fun _ => rfl⟩
  | cons clause rest ih =>
    cases clause with
    | literal text x =>
      obtain ⟨t, hx, key, h⟩ := addLiterals_cons_eq_ok h
      obtain ⟨frame, literals⟩ := ih h
      refine ⟨frame, fun k => ?_⟩
      have later := literals k
      cases hl : last? (.literal k) rest with
      | some child =>
        rw [last?, hl, Option.some_or]
        rwa [hl] at later
      | none =>
        rw [hl] at later
        by_cases hk : k = text
        · subst hk
          have here : last? (.literal k) (.literal k x :: rest) = some (.literal k, x) := by
            simp [last?, hl, child?, Piece.edge]
          rw [here]
          exact ⟨key, t, hx, later.trans (Dict.find?_insert_self ..)⟩
        · rw [last?_cons_of_ne (by simpa [child?, Piece.edge] using Ne.symm hk), hl]
          exact later.trans (Dict.find?_insert_of_ne hk ..)
    | handler _ | param _ _ | wildcard _ =>
      obtain ⟨frame, literals⟩ := ih h
      refine ⟨frame, fun k => ?_⟩
      rw [last?_cons_of_ne (by simp [child?, Piece.edge])]
      exact literals k

/-- A child of a position is the built child of clauses. -/
abbrev IsBuilt (child : Piece × Logged Fault (Tree H)) (t : Tree H) : Prop :=
  child.2.result = .ok t

theorem addLiterals_eq_ok {clauses : List (Clause H (Logged Fault (Tree H)))} {d d' : Draft H}
    (free : d.literals = []) (h : (addLiterals d (allLiterals clauses)).result = .ok d') :
    d' = { d with literals := d'.literals } ∧
      (∀ key, Option.Rel IsBuilt (last? (.literal key) clauses) (Dict.find? key d'.literals)) ∧
      ∀ key, (last? (.literal key) clauses).isSome → isKey key = true := by
  obtain ⟨frame, literals⟩ := find?_addLiterals h
  refine ⟨frame, fun key => ?_, fun key present => ?_⟩
  · have last := literals key
    cases hl : last? (.literal key) clauses with
    | none =>
      rw [hl, free] at last
      rw [last]
      exact .none
    | some child =>
      rw [hl] at last
      obtain ⟨-, t, ht, hfind⟩ := last
      rw [hfind]
      exact .some ht
  · have last := literals key
    obtain ⟨child, hl⟩ := Option.isSome_iff_exists.mp present
    rw [hl] at last
    exact last.1

theorem addParam_eq_ok {first : Option (Param × Logged Fault (Tree H))} {d d' : Draft H}
    (free : d.param = none) (h : (addParam d first).result = .ok d') :
    d' = { d with param := d'.param } ∧ d'.param.map Prod.fst = first.map Prod.fst ∧
      Option.Rel IsBuilt (first.map fun first => (.param first.1, first.2))
        (d'.param.map Prod.snd) := by
  cases first with
  | none =>
    obtain rfl : d = d' := Except.ok.inj h
    rw [free]
    exact ⟨by rw [← free], rfl, .none⟩
  | some first =>
    obtain ⟨p, x⟩ := first
    obtain ⟨t, hx, h⟩ := Logged.bind_eq_ok_iff.mp h
    rw [Logged.result_ofExcept, accepted_setParam free] at h
    obtain rfl := Except.ok.inj h
    exact ⟨rfl, rfl, .some hx⟩

theorem addWildcard_eq_ok {first : Option (Logged Fault (Tree H))} {d d' : Draft H}
    (free : d.wildcard = none) (h : (addWildcard d first).result = .ok d') :
    d' = { d with wildcard := d'.wildcard } ∧
      Option.Rel IsBuilt (first.map fun x => (.wildcard, x)) d'.wildcard := by
  cases first with
  | none =>
    obtain rfl : d = d' := Except.ok.inj h
    rw [free]
    exact ⟨by rw [← free], .none⟩
  | some x =>
    obtain ⟨t, hx, h⟩ := Logged.bind_eq_ok_iff.mp h
    rw [Logged.result_ofExcept, accepted_setWildcard free] at h
    obtain rfl := Except.ok.inj h
    exact ⟨rfl, .some hx⟩

/-- The position that clauses with built children describe. -/
structure Assembled (clauses : List (Clause H (Logged Fault (Tree H)))) (t : Tree H) : Prop where
  handler : t.handler = lastHandler clauses
  descriptor : t.descriptor? = (last? .param clauses).bind fun child => child.1.param?
  child : ∀ e, Option.Rel IsBuilt (last? e clauses) (t.child? e)
  isKey : ∀ key, (last? (.literal key) clauses).isSome → isKey key = true

/-- What is assembled goes through three drafts, from clauses without a fault. -/
theorem assemble_eq_ok {label : String} {clauses : List (Clause H (Logged Fault (Tree H)))}
    {t : Tree H} (h : (assemble label (.ofClauses clauses)).result = .ok t) :
    firstFault false false clauses = none ∧ ∃ d₁ d₂ d₃,
      (addLiterals { handler := lastHandler clauses } (allLiterals clauses)).result = .ok d₁ ∧
      (addParam d₁ (firstParam? clauses)).result = .ok d₂ ∧
      (addWildcard d₂ (firstWildcard? clauses)).result = .ok d₃ ∧
      t = d₃.freeze label := by
  rw [Staged.ofClauses_eq, assemble] at h
  cases fault : firstFault false false clauses with
  | some f => simp only [fault] at h; cases h
  | none =>
    simp only [fault] at h
    obtain ⟨d₁, h₁, h⟩ := Logged.bind_eq_ok_iff.mp h
    obtain ⟨d₂, h₂, h⟩ := Logged.bind_eq_ok_iff.mp h
    obtain ⟨d₃, h₃, h⟩ := Logged.bind_eq_ok_iff.mp h
    exact ⟨rfl, d₁, d₂, d₃, h₁, h₂, h₃, (Except.ok.inj h).symm⟩

theorem assembled_of_assemble {label : String}
    {clauses : List (Clause H (Logged Fault (Tree H)))} {t : Tree H}
    (h : (assemble label (.ofClauses clauses)).result = .ok t) : Assembled clauses t := by
  obtain ⟨fault, d₁, d₂, d₃, h₁, h₂, h₃, rfl⟩ := assemble_eq_ok h
  obtain ⟨frame₁, literals₁, keys₁⟩ := addLiterals_eq_ok rfl h₁
  have param₁ : d₁.param = none := by rw [frame₁]
  obtain ⟨frame₂, descriptor₂, param₂⟩ := addParam_eq_ok param₁ h₂
  have wildcard₂ : d₂.wildcard = none := by rw [frame₂, frame₁]
  obtain ⟨frame₃, wildcard₃⟩ := addWildcard_eq_ok wildcard₂ h₃
  -- every step keeps what the others have set
  have handler : d₃.handler = lastHandler clauses := by rw [frame₃, frame₂, frame₁]
  have literals : d₃.literals = d₁.literals := by rw [frame₃, frame₂]
  have param : d₃.param = d₂.param := by rw [frame₃]
  refine ⟨handler, ?_, fun e => ?_, keys₁⟩
  · show d₃.param.map Prod.fst = _
    rw [param, descriptor₂, last?_param fault, Option.bind_map]
    cases firstParam? clauses <;> rfl
  · cases e with
    | literal key =>
      show Option.Rel IsBuilt _ (Dict.find? key d₃.literals)
      rw [literals]
      exact literals₁ key
    | param =>
      show Option.Rel IsBuilt _ (d₃.param.map Prod.snd)
      rw [param, last?_param fault]
      exact param₂
    | wildcard =>
      rw [last?_wildcard fault]
      exact wildcard₃

end Draft

/-! ### Plans -/

namespace Plan

open Clause

variable {H : Type u}

/-- What is said of the outermost position. -/
def clauses : Plan H → List (Clause H (Plan H))
  | .mk clauses => clauses

/-- The handler that a plan ends up with. -/
def handler? (plan : Plan H) : Option H := lastHandler plan.clauses

/-- The child that survives along an edge. -/
def child? (plan : Plan H) (e : Edge) : Option (Piece × Plan H) := last? e plan.clauses

/-- A plan whose tree this is, under whatever label. -/
def Describes (plan : Plan H) (t : Tree H) : Prop := ∃ label, (plan.buildAt label).result = .ok t

/-- The label of a child behind a piece. -/
def childLabel : Piece → String
  | .literal text => text
  | .param p => p.label
  | .wildcard => Tree.wildcardLabel

/-- A child with its tree in place of its plan. -/
def buildChild (child : Piece × Plan H) : Piece × Logged Fault (Tree H) :=
  (child.1, child.2.buildAt (childLabel child.1))

theorem child?_buildClause (clause : Clause H (Plan H)) :
    (buildClause clause).child? = clause.child?.map buildChild := by
  cases clause <;> rfl

theorem last?_buildClauses (e : Edge) (clauses : List (Clause H (Plan H))) :
    last? e (buildClauses clauses) = (last? e clauses).map buildChild := by
  induction clauses with
  | nil => rfl
  | cons clause rest ih =>
    rw [buildClauses, last?, last?, ih, child?_buildClause, Option.map_or, Option.filter_map]
    rfl

theorem lastHandler_buildClauses (clauses : List (Clause H (Plan H))) :
    lastHandler (buildClauses clauses) = lastHandler clauses := by
  induction clauses with
  | nil => rfl
  | cons clause rest ih => cases clause <;> simp [buildClauses, buildClause, lastHandler, ih]

namespace Describes

variable {plan : Plan H} {t : Tree H}

theorem assembled (h : plan.Describes t) : Draft.Assembled (buildClauses plan.clauses) t := by
  obtain ⟨label, h⟩ := h
  cases plan
  exact Draft.assembled_of_assemble h

theorem handler (h : plan.Describes t) : t.handler = plan.handler? := by
  rw [h.assembled.handler, lastHandler_buildClauses]
  rfl

theorem descriptor (h : plan.Describes t) :
    t.descriptor? = (plan.child? .param).bind fun child => child.1.param? := by
  rw [h.assembled.descriptor, last?_buildClauses, Option.bind_map]
  rfl

/-- Along an edge a child survives exactly if the tree has one, which it describes. -/
theorem child (h : plan.Describes t) (e : Edge) :
    Option.Rel (fun child c => child.2.Describes c) (plan.child? e) (t.child? e) := by
  have built := h.assembled.child e
  rw [last?_buildClauses] at built
  change Option.Rel Draft.IsBuilt ((plan.child? e).map buildChild) (t.child? e) at built
  generalize plan.child? e = child at built ⊢
  generalize t.child? e = c at built ⊢
  cases child with
  | none =>
    cases built
    exact .none
  | some child =>
    cases built with
    | some hc => exact .some ⟨_, hc⟩

/-- A child that survives is in the tree. -/
theorem exists_child (h : plan.Describes t) {e : Edge} {child : Piece × Plan H}
    (hc : plan.child? e = some child) : ∃ c, t.child? e = some c ∧ child.2.Describes c := by
  have children := h.child e
  rw [hc] at children
  generalize t.child? e = c at children ⊢
  cases children with
  | some describes => exact ⟨_, rfl, describes⟩

/-- A child in the tree is one that survives. -/
theorem exists_survivor (h : plan.Describes t) {e : Edge} {c : Tree H}
    (hc : t.child? e = some c) : ∃ child, plan.child? e = some child ∧ child.2.Describes c := by
  have children := h.child e
  rw [hc] at children
  generalize plan.child? e = child at children ⊢
  cases children with
  | some describes => exact ⟨_, rfl, describes⟩

theorem isKey (h : plan.Describes t) {key : String} (hc : (plan.child? (.literal key)).isSome) :
    Routing.isKey key = true := by
  refine h.assembled.isKey key ?_
  rw [last?_buildClauses, Option.isSome_map]
  exact hc

end Describes

end Plan

end Routing
