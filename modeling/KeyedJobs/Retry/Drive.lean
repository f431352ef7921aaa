import KeyedJobs.Completion.Aggregation
import KeyedJobs.Job
import KeyedJobs.Retry.Decision

/-! # Driving a job to its end

A drive takes one job through its attempts and, if they are used up, through its compensation. It
moves in steps: each step makes at most one call of the action or the compensator, and a step is
possible unless the drive waits for completions or for the pause before a retry. What a step logs
and which calls it makes are handed back with it.
-/

namespace KeyedJobs

/-- The time limits under which jobs are driven. -/
structure RetryPolicy where
  /-- A completion that takes longer counts as failed. -/
  completionTimeout : Option Duration
  /-- The pause before a failed attempt is run again. -/
  backoff : Option Duration
  deriving Repr, DecidableEq

/-- What an inspecting compensator sees of one completion: its description, what a poll yields, and
its description after that. -/
structure Inspection where
  before : Except Panic Text.Record
  yielded : Poll
  after : Except Panic Text.Record

/-- One call into a job. -/
inductive JobCall where
  | attempt (number : Nat)
  | compensate (failed : List CompletionId) (inspections : List Inspection)

/-- Where a drive stands between two steps. -/
inductive Phase where
  /-- The next attempt can start. -/
  | ready
  /-- The attempt has handed back completions. -/
  | launched (writes : List CompletionId)
  | collecting (waiting : Aggregation)
  | judging (outcome : Outcome)
  /-- The next attempt can start at the given instant. -/
  | pausing (due : Instant)
  /-- The compensator is to be called. -/
  | reverting (outcome : Outcome)
  /-- The compensator has handed back completions. -/
  | revertLaunched (writes : List CompletionId)
  | revertCollecting (waiting : Aggregation)
  /-- The compensation is over, however it went. -/
  | reverted
  | ended (resolution : Resolution)
  deriving Repr, DecidableEq

structure Drive where
  job : Job
  state : JobState
  /-- The calls of the action made so far. -/
  calls : Nat
  phase : Phase

/-- A drive after a step, with the completions and with what the step logged and called. -/
structure Drive.Step where
  drive : Drive
  completions : Completions
  log : List LogLine
  made : List JobCall

/-- Looks at completions one after the other, polling each. -/
def Completions.inspectEach (now : Instant) (cs : Completions) :
    List CompletionId → List Inspection × Completions
  | [] => ([], cs)
  | id :: rest =>
      let before := cs.describe id
      let (yielded, cs) := cs.poll now id
      let after := cs.describe id
      let (others, cs) := inspectEach now cs rest
      (⟨before, yielded, after⟩ :: others, cs)

namespace Drive

def begin (job : Job) : Drive :=
  ⟨job, .pending, 0, .ready⟩

/-- The resolution, once the drive has ended. -/
def resolution? (d : Drive) : Option Resolution :=
  match d.phase with
  | .ended resolution => some resolution
  | _ => none

/-- Whether a step is possible now. -/
def canStep (now : Instant) (cs : Completions) (d : Drive) : Bool :=
  match d.phase with
  | .collecting waiting | .revertCollecting waiting => waiting.isReady now cs
  | .pausing due => due ≤ now
  | .ended _ => false
  | _ => true

/-- The next instant at which time alone makes a step possible. -/
def wakeAt? (cs : Completions) (d : Drive) : Option Instant :=
  match d.phase with
  | .collecting waiting | .revertCollecting waiting => waiting.wakeAt? cs
  | .pausing due => some due
  | _ => none

/-- The line for a change of state. -/
def transitionLine (d : Drive) (next : JobState) : LogLine :=
  .debug s!"Job {d.job.title}: {d.state.name} -> {next.name}"

/-- Ends the drive in a state. -/
def finish (d : Drive) (state : JobState) (compensated : Bool) : Drive :=
  { d with state, phase := .ended ⟨d.job.key, state, d.job.attemptCount, compensated⟩ }

/-- Starts the next attempt: the action is called. -/
def attempt (cs : Completions) (d : Drive) : Step :=
  let log := [d.transitionLine .running]
  let number := d.calls + 1
  let job := { d.job with attemptCount := nextAttempt d.job.attemptCount }
  let d := { d with job, state := .running, calls := number }
  match job.action number with
  | .writes started =>
      let (writes, cs) := cs.startEach started
      ⟨{ d with phase := .launched writes }, cs, log, [.attempt number]⟩
  | .fails error =>
      let (outcome, cs) := Outcome.ofError (.failed error) cs
      ⟨{ d with phase := .judging outcome }, cs, log, [.attempt number]⟩
  | .panics panic =>
      let (outcome, cs) := Outcome.ofError (.ofPanic panic) cs
      ⟨{ d with phase := .judging outcome }, cs, log, [.attempt number]⟩

/-- Acts on the outcome of an attempt. -/
def judge (policy : RetryPolicy) (now : Instant) (cs : Completions) (d : Drive)
    (outcome : Outcome) : Step :=
  let job := d.job
  let decision := Decision.afterAttempt outcome.isSuccess job.attemptCount job.maxRetries
    job.hasCompensator
  match decision with
  | .succeed => ⟨d.finish .succeeded false, cs, [d.transitionLine .succeeded], []⟩
  | .retry =>
      let allowed := nextAttempt job.maxRetries
      let failed := .warn (s!"Job {job.title} failed attempt {job.attemptCount}/{allowed}: " ++
        s!"{outcome.summary}, retrying")
      let phase := match policy.backoff with
        | some pause => .pausing (now.after pause)
        | none => .ready
      ⟨{ d with state := .retrying, phase }, cs, [failed, d.transitionLine .retrying], []⟩
  | .compensate =>
      let failed := .error (s!"Job {job.title} failed after {job.attemptCount} attempts: " ++
        s!"{outcome.summary}, running compensator")
      ⟨{ d with state := .compensating, phase := .reverting outcome }, cs,
        [failed, d.transitionLine .compensating], []⟩
  | .abandon =>
      let failed := .error (s!"Job {job.title} abandoned after {job.attemptCount} attempts: " ++
        outcome.summary)
      ⟨d.finish .abandoned false, cs, [failed, d.transitionLine .abandoned], []⟩

/-- Calls the compensator, which is thereby used up. -/
def revert (now : Instant) (cs : Completions) (d : Drive) (outcome : Outcome) : Step :=
  match d.job.compensator with
  | none => ⟨{ d with phase := .reverted }, cs, [], []⟩
  | some compensator =>
      let d := { d with job := { d.job with compensator := none } }
      let failed := outcome.failedCompletions
      let (inspections, cs) := if compensator.inspects then cs.inspectEach now failed else ([], cs)
      let remarks := compensator.remark failed.length
      let made := [.compensate failed inspections]
      match compensator.respond failed with
      | .writes started =>
          let (writes, cs) := cs.startEach started
          ⟨{ d with phase := .revertLaunched writes }, cs, remarks, made⟩
      | .fails error =>
          let line := .error s!"Error running compensator of job {d.job.title}: {error.text}"
          ⟨{ d with phase := .reverted }, cs, remarks ++ [line], made⟩
      | .panics panic =>
          let reason := (CompletionError.ofPanic panic).text
          let line := .error s!"Compensator of job {d.job.title} {reason}"
          ⟨{ d with phase := .reverted }, cs, remarks ++ [line], made⟩

/-- Takes note of how the writes of the compensator ended. -/
def closeRevert (cs : Completions) (d : Drive) (outcome : Outcome) : Step :=
  let log := if outcome.isSuccess then [] else
    [.error s!"Compensation of job {d.job.title} did not complete: {outcome.summary}"]
  ⟨{ d with phase := .reverted }, cs, log, []⟩

/-- Waits for the writes of an attempt. -/
def collect (d : Drive) (waiting : Aggregation) (cs : Completions) : Step :=
  let phase := if waiting.isComplete then .judging waiting.outcome else .collecting waiting
  ⟨{ d with phase }, cs, [], []⟩

/-- Waits for the writes of the compensator. -/
def collectRevert (d : Drive) (waiting : Aggregation) (cs : Completions) : Step :=
  if waiting.isComplete then d.closeRevert cs waiting.outcome
  else ⟨{ d with phase := .revertCollecting waiting }, cs, [], []⟩

/-- One step. A drive that has ended stays as it is. -/
def step (policy : RetryPolicy) (now : Instant) (cs : Completions) (d : Drive) : Step :=
  match d.phase with
  | .ready => d.attempt cs
  | .launched writes =>
      let (waiting, cs) := (Aggregation.begin now policy.completionTimeout writes).poll now cs
      d.collect waiting cs
  | .collecting waiting =>
      let (waiting, cs) := waiting.poll now cs
      d.collect waiting cs
  | .judging outcome => d.judge policy now cs outcome
  | .pausing _ => ⟨{ d with phase := .ready }, cs, [], []⟩
  | .reverting outcome => d.revert now cs outcome
  | .revertLaunched writes =>
      let (waiting, cs) := (Aggregation.begin now policy.completionTimeout writes).poll now cs
      d.collectRevert waiting cs
  | .revertCollecting waiting =>
      let (waiting, cs) := waiting.poll now cs
      d.collectRevert waiting cs
  | .reverted => ⟨d.finish .abandoned true, cs, [d.transitionLine .abandoned], []⟩
  | .ended _ => ⟨d, cs, [], []⟩

end Drive

end KeyedJobs
