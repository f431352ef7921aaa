import KeyedJobs.Completion.Write
import KeyedJobs.Log

/-! # Jobs

A job is one unit of work on the entity that its key names: an action that starts writes and can be
called again after a failed attempt, and perhaps a compensator that reverts what is left once no
attempt remains. Running a job is not covered here.
-/

namespace KeyedJobs

/-- What one call of an action or of a compensator does. -/
inductive Call where
  /-- It starts writes and hands back their completions. -/
  | writes (started : List Write)
  | fails (error : ErrorChain)
  | panics (panic : Panic)
  deriving Repr, DecidableEq

/-- Reverts the effects of a job whose attempts are used up. It is called once, with the completions
    that failed in the last attempt. -/
structure Compensator where
  respond : List CompletionId → Call
  /-- Whether the call polls each completion that it is given. -/
  inspects : Bool
  /-- What the call logs, by the number of completions that it is given. -/
  remark : Nat → List LogLine

structure Job where
  key : String
  /-- Names the job in the log. -/
  desc : String
  /-- The calls of the action, numbered from one. -/
  action : Nat → Call
  compensator : Option Compensator
  /-- How many attempts may follow the first. -/
  maxRetries : Nat
  /-- The attempts made so far. -/
  attemptCount : Nat
  /-- The panic that dropping the job raises, if it does. -/
  dropPanic : Option Panic

namespace Job

/-- A job without retries and without compensator, described by its key. -/
def new (key : String) (action : Nat → Call) : Job :=
  { key, desc := key, action, compensator := none, maxRetries := 0, attemptCount := 0,
    dropPanic := none }

def withDesc (job : Job) (desc : String) : Job :=
  { job with desc }

def withMaxRetries (job : Job) (maxRetries : Nat) : Job :=
  { job with maxRetries }

def withCompensator (job : Job) (compensator : Compensator) : Job :=
  { job with compensator := some compensator }

def hasCompensator (job : Job) : Bool :=
  job.compensator.isSome

/-- The job as log lines name it. -/
def title (job : Job) : String :=
  s!"{job.desc} (key {job.key})"

def describe (job : Job) : Text.Record :=
  ⟨"Job", [("key", Text.quoted job.key), ("desc", Text.quoted job.desc),
    ("max_retries", toString job.maxRetries), ("attempt_count", toString job.attemptCount),
    ("compensator", Text.ofBool job.hasCompensator)]⟩

end Job

end KeyedJobs
