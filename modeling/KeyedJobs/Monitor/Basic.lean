import KeyedJobs.Duration
import KeyedJobs.Retry.Decision

/-! # Counters of a coordinator

How many jobs were admitted and how they ended, and the gauge of jobs that have been admitted but
not resolved. The counters never go down; the gauge goes up when a job is about to be admitted and
down when the job is refused or resolved.
-/

namespace KeyedJobs

structure Monitor where
  admitted : Nat
  succeeded : Nat
  abandoned : Nat
  retried : Nat
  compensated : Nat
  discarded : Nat
  /-- Jobs that are admitted, or about to be, and not resolved. -/
  incomplete : Nat
  deriving Repr, DecidableEq

/-- The counters at one moment, with the number of keys in the queue. -/
structure Snapshot where
  counters : Monitor
  queuedKeys : Nat
  deriving Repr, DecidableEq

/-- The events that change the counters. -/
inductive Monitor.Change where
  /-- A job is about to become visible to the workers. -/
  | admitting
  | admitted
  /-- A job that was about to be admitted was refused after all. -/
  | rejected
  | finished (resolution : Resolution)
  /-- An admitted job was dropped before it started. -/
  | discarded
  deriving Repr, DecidableEq

/-- A change of one counter, made in one go. -/
inductive Monitor.Adjustment where
  /-- Puts a job on the gauge. -/
  | raise
  | admission
  | success
  | abandonment
  | retries (times : Nat)
  | compensation
  | discard
  /-- Takes a job off the gauge. -/
  | lower
  deriving Repr, DecidableEq

namespace Monitor

def empty : Monitor := ⟨0, 0, 0, 0, 0, 0, 0⟩

/-- A gauge that is at zero stays there when it is lowered. -/
def adjust (m : Monitor) : Adjustment → Monitor
  | .raise => { m with incomplete := m.incomplete + 1 }
  | .admission => { m with admitted := m.admitted + 1 }
  | .success => { m with succeeded := m.succeeded + 1 }
  | .abandonment => { m with abandoned := m.abandoned + 1 }
  | .retries times => { m with retried := m.retried + times }
  | .compensation => { m with compensated := m.compensated + 1 }
  | .discard => { m with discarded := m.discarded + 1 }
  | .lower => { m with incomplete := m.incomplete - 1 }

/-- The counter for the way in which a job ended. -/
def Adjustment.ofEnding (r : Resolution) : Adjustment :=
  if r.state = .succeeded then .success else .abandonment

/-- What a change consists of, in order. Threads that change the counters at the same time may come
in between. A resolved job leaves the gauge last. -/
def Change.adjustments : Change → List Adjustment
  | .admitting => [.raise]
  | .admitted => [.admission]
  | .rejected => [.lower]
  | .finished r =>
      let compensation := if r.compensated then [.compensation] else []
      [.ofEnding r, .retries (r.attempts - 1)] ++ compensation ++ [.lower]
  | .discarded => [.discard, .abandonment, .lower]

/-- The counters after a change that nothing comes in between of. -/
def apply (m : Monitor) (change : Change) : Monitor :=
  change.adjustments.foldl adjust m

/-- Whether the change takes a job off the gauge. -/
def Change.settles : Change → Bool
  | .rejected | .finished _ | .discarded => true
  | .admitting | .admitted => false

def isIdle (m : Monitor) : Bool :=
  m.incomplete = 0

end Monitor

end KeyedJobs
