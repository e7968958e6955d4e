import TestCatalog.Failure
import TestCatalog.Log.Event

/-!
# Log/Logged — work that is logged

A piece of work reports events and ends in a value or a failure.  After a failure nothing more is
done, and the events so far remain.  How work in a row ends is in the simp set: with a value if all
of it does (`result_bind_eq_ok_iff`), else with the first failure (`result_bind_eq_error_iff`).
-/

namespace TestCatalog.Log

/-- The events of a piece of work, in the order in which they happen, and how it ends. -/
structure Logged (α : Type) where
  events : List Event
  result : Except Failure α

namespace Logged

variable {α β : Type}

/-- A value, without any event. -/
protected def pure (a : α) : Logged α := ⟨[], .ok a⟩

/-- One piece of work after another. -/
protected def bind (x : Logged α) (f : α → Logged β) : Logged β :=
  match x.result with
  | .ok a => ⟨x.events ++ (f a).events, (f a).result⟩
  | .error e => ⟨x.events, .error e⟩

instance : Monad Logged where
  pure := Logged.pure
  bind := Logged.bind

/-- A value or a failure, without any event. -/
def ofExcept (result : Except Failure α) : Logged α := ⟨[], result⟩

/-- A failure, without any event. -/
def fail (e : Failure) : Logged α := ⟨[], .error e⟩

/-- Reports events. -/
def report (events : List Event) : Logged Unit := ⟨events, .ok ()⟩

/-- The same work on each element of a list, from left to right, up to the first failure. -/
def each (work : α → Logged β) : List α → Logged (List β)
  | [] => pure []
  | a :: rest => do
    let b ← work a
    let bs ← each work rest
    return b :: bs

/-! ## How it ends -/

@[simp] theorem result_pure (a : α) : (pure a : Logged α).result = .ok a := rfl

@[simp] theorem result_ofExcept (result : Except Failure α) :
    (ofExcept result).result = result := rfl

@[simp] theorem result_fail (e : Failure) : (fail e : Logged α).result = .error e := rfl

@[simp] theorem result_report (events : List Event) : (report events).result = .ok () := rfl

theorem result_bind (x : Logged α) (f : α → Logged β) :
    (x >>= f).result = x.result >>= fun a => (f a).result := by
  cases h : x.result <;> simp [bind, Logged.bind, Except.bind, h]

/-- Two pieces of work in a row succeed when the first does and the second does on what came of
it. -/
@[simp] theorem result_bind_eq_ok_iff {x : Logged α} {f : α → Logged β} {b : β} :
    (x >>= f).result = .ok b ↔ ∃ a, x.result = .ok a ∧ (f a).result = .ok b := by
  rw [result_bind]
  cases x.result with
  | error e => simp [bind, Except.bind]
  | ok a => simp [bind, Except.bind]

/-- Two pieces of work in a row fail when the first does, or the second after the first. -/
@[simp] theorem result_bind_eq_error_iff {x : Logged α} {f : α → Logged β} {e : Failure} :
    (x >>= f).result = .error e
      ↔ x.result = .error e ∨ ∃ a, x.result = .ok a ∧ (f a).result = .error e := by
  rw [result_bind]
  cases x.result with
  | error e' => simp [bind, Except.bind]
  | ok a => simp [bind, Except.bind]

end Logged

@[simp] theorem mapError_eq_ok_iff {ε α : Type} {result : Except ε α} {f : ε → Failure} {a : α} :
    result.mapError f = .ok a ↔ result = .ok a := by
  cases result with
  | ok b =>
    show Except.ok b = .ok a ↔ _
    simp
  | error fault => exact iff_of_false nofun nofun

@[simp] theorem mapError_eq_error_iff {ε α : Type} {result : Except ε α} {f : ε → Failure}
    {e : Failure} :
    result.mapError f = .error e ↔ ∃ fault, result = .error fault ∧ f fault = e := by
  cases result with
  | ok b => exact iff_of_false nofun nofun
  | error fault =>
    show Except.error (f fault) = .error e ↔ _
    simp

end TestCatalog.Log
