import Routing.Event

/-!
# Computations that report events

A `Logged ε α` is a list of events together with a result, which is a value or a fault. A fault ends
the computation and keeps the events sent before it. The result of a sequence depends on the results
of its steps alone (`result_bind`), so that what is said about results never mentions events.
-/

universe u

namespace Routing

/-- The events sent on the way, and the result. -/
structure Logged (ε : Type) (α : Type u) where
  events : List Event
  result : Except ε α

namespace Logged

variable {ε : Type} {α β : Type u}

def ok (a : α) : Logged ε α := ⟨[], .ok a⟩

def fail (e : ε) : Logged ε α := ⟨[], .error e⟩

/-- A result that was found without reporting anything. -/
def ofExcept (r : Except ε α) : Logged ε α := ⟨[], r⟩

/-- Reports an event in front of a computation. -/
def after (e : Event) (x : Logged ε α) : Logged ε α := ⟨e :: x.events, x.result⟩

/-- Reports an event and gives a value. -/
def announce (e : Event) (a : α) : Logged ε α := ⟨[e], .ok a⟩

/-- Goes on with the value, unless there is a fault. -/
def bind (x : Logged ε α) (f : α → Logged ε β) : Logged ε β :=
  match x.result with
  | .ok a => ⟨x.events ++ (f a).events, (f a).result⟩
  | .error e => ⟨x.events, .error e⟩

instance : Monad (Logged ε) where
  pure := ok
  bind := bind

/-- Names a fault otherwise. -/
def mapFault {ε' : Type} (f : ε → ε') (x : Logged ε α) : Logged ε' α :=
  ⟨x.events, x.result.mapError f⟩

/-! ### Results -/

@[simp] theorem result_ok (a : α) : (ok a : Logged ε α).result = .ok a := rfl

@[simp] theorem result_pure (a : α) : (pure a : Logged ε α).result = .ok a := rfl

@[simp] theorem result_fail (e : ε) : (fail e : Logged ε α).result = .error e := rfl

@[simp] theorem result_ofExcept (r : Except ε α) : (ofExcept r).result = r := rfl

@[simp] theorem result_after (e : Event) (x : Logged ε α) : (after e x).result = x.result := rfl

@[simp] theorem result_announce (e : Event) (a : α) :
    (announce e a : Logged ε α).result = .ok a := rfl

@[simp] theorem result_bind (x : Logged ε α) (f : α → Logged ε β) :
    (x >>= f).result = x.result.bind fun a => (f a).result := by
  show (bind x f).result = _
  unfold bind
  cases x.result <;> rfl

/-- A sequence that succeeds has gone through a value of its first part. -/
theorem bind_eq_ok_iff {x : Logged ε α} {f : α → Logged ε β} {b : β} :
    (x >>= f).result = .ok b ↔ ∃ a, x.result = .ok a ∧ (f a).result = .ok b := by
  rw [result_bind]
  cases x.result with
  | error e => simp [Except.bind]
  | ok a => simp [Except.bind]

/-- Naming a fault otherwise changes no value. -/
theorem mapFault_eq_ok_iff {ε' : Type} {f : ε → ε'} {x : Logged ε α} {a : α} :
    (x.mapFault f).result = .ok a ↔ x.result = .ok a := by
  obtain ⟨events, result⟩ := x
  cases result with
  | error e => exact iff_of_false nofun nofun
  | ok b => exact ⟨fun h => congrArg _ (Except.ok.inj h), fun h => congrArg _ (Except.ok.inj h)⟩

end Logged

end Routing
