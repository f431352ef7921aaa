import KeyedJobs.Text.Record

/-! # States and decisions of a job

The states that a job goes through, what is decided after each attempt, and how a job ends.

    Pending → Running → Succeeded
    Running → Retrying → Running            while retries are left
    Running → Compensating → Abandoned      with a compensator
    Running → Abandoned                     without one
-/

namespace KeyedJobs

inductive JobState where
  | pending
  | running
  | retrying
  | compensating
  | succeeded
  | abandoned
  deriving Repr, DecidableEq

namespace JobState

def name : JobState → String
  | .pending => "Pending"
  | .running => "Running"
  | .retrying => "Retrying"
  | .compensating => "Compensating"
  | .succeeded => "Succeeded"
  | .abandoned => "Abandoned"

def isTerminal : JobState → Bool
  | .succeeded | .abandoned => true
  | _ => false

end JobState

/-- What is done after an attempt. -/
inductive Decision where
  | succeed
  | retry
  | compensate
  | abandon
  deriving Repr, DecidableEq

/-- The decision after an attempt, from whether it succeeded, the number of attempts made so far,
this one included, the number of retries allowed and the presence of a compensator. -/
def Decision.afterAttempt (succeeded : Bool) (attempts maxRetries : Nat) (compensator : Bool) :
    Decision :=
  if succeeded then .succeed
  else if attempts ≤ maxRetries then .retry
  else if compensator then .compensate
  else .abandon

/-- The greatest number of attempts that is counted. -/
def maxAttempts : Nat := 4294967295

/-- Adds one to a number of attempts. The count stays at `maxAttempts` once it is there. -/
def nextAttempt (attempts : Nat) : Nat :=
  min (attempts + 1) maxAttempts

/-- How a job ended. -/
structure Resolution where
  key : String
  state : JobState
  attempts : Nat
  compensated : Bool
  deriving Repr, DecidableEq

def Resolution.describe (r : Resolution) : Text.Record :=
  ⟨"Resolution", [("key", Text.quoted r.key), ("state", r.state.name),
    ("attempts", toString r.attempts), ("compensated", Text.ofBool r.compensated)]⟩

end KeyedJobs
