/-! # Locks that can be poisoned

A lock guards a value. A holder that panics poisons the lock, and from then on every access panics.
-/

namespace KeyedJobs

inductive Lock (α : Type) where
  | sound (guarded : α)
  | poisoned
  deriving Repr, DecidableEq

/-- The ways in which an access to a lock panics: the holder's own reason, or the panic of an
earlier holder. -/
inductive LockPanic (ε : Type) where
  | raised (reason : ε)
  | poisoned
  deriving Repr, DecidableEq

namespace Lock

variable {α β ε : Type}

/-- Runs `use` on the guarded value while the lock is held. -/
def access (lock : Lock α) (use : α → Except ε (β × α)) : Except (LockPanic ε) β × Lock α :=
  match lock with
  | .poisoned => (.error .poisoned, .poisoned)
  | .sound guarded =>
      match use guarded with
      | .ok (result, guarded) => (.ok result, .sound guarded)
      | .error reason => (.error (.raised reason), .poisoned)

/-- Looks at the guarded value. -/
def read (lock : Lock α) (look : α → β) : Except (LockPanic ε) β :=
  match lock with
  | .poisoned => .error .poisoned
  | .sound guarded => .ok (look guarded)

@[simp] theorem access_poisoned (use : α → Except ε (β × α)) :
    (poisoned : Lock α).access use = (.error .poisoned, .poisoned) := rfl

variable {use : α → Except ε (β × α)} {guarded after : α} {result : β} {reason : ε}

theorem access_of_ok (done : use guarded = .ok (result, after)) :
    (sound guarded).access use = (.ok result, .sound after) := by
  rw [access, done]

theorem access_of_error (fails : use guarded = .error reason) :
    (sound guarded).access use = (.error (.raised reason), .poisoned) := by
  rw [access, fails]

/-- An access that panics leaves the lock poisoned. -/
theorem access_eq_poisoned {lock : Lock α} {fault : LockPanic ε}
    (panics : (lock.access use).1 = .error fault) : (lock.access use).2 = .poisoned := by
  cases lock with
  | poisoned => rfl
  | sound guarded =>
      cases done : use guarded with
      | error reason => rw [access_of_error done]
      | ok result =>
          rw [access_of_ok done] at panics
          cases panics

end Lock

/-- The text of the panic that a poisoned lock raises. -/
def poisonedLockText : String :=
  "called `Result::unwrap()` on an `Err` value: PoisonError \x7b .. \x7d"

end KeyedJobs
