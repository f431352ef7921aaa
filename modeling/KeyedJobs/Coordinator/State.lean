import KeyedJobs.Channel
import KeyedJobs.Config.Basic
import KeyedJobs.KeyQueue.Operation
import KeyedJobs.Monitor.IdleWait
import KeyedJobs.Retry.Drive

/-! # The state of a coordinator

A coordinator consists of the shared queue of waiting jobs, the counters, a channel of signals to a
pool of workers, the workers, and the calls that other threads are making on it. Each worker and
each call stands at a stage between two of its steps, so a state is what can be seen between any two
steps of any threads.

Besides what the threads work on, the state keeps the log and a history of what happened to each
job.
-/

namespace KeyedJobs

/-- A job with the number of the call that brought it. -/
structure Ticket where
  serial : Nat
  job : Job

/-- A message to the workers. -/
inductive Signal where
  /-- A job was pushed for the key; run its next job if the key is idle. -/
  | wake (key : String)
  /-- The next job of a key that was just released. Its key is active already. -/
  | resume (ticket : Ticket)

/-- A job that a worker has driven to its end, and how it ended. -/
structure Driven where
  serial : Nat
  key : String
  resolution : Resolution

/-- Where a worker stands. -/
inductive Worker where
  /-- About to receive a signal. -/
  | receiving
  /-- Has received a wake signal and not yet looked for the key's next job. -/
  | activating (key : String)
  /-- Has a job in hand whose drive has not begun. -/
  | holding (ticket : Ticket)
  | driving (ticket : Ticket) (drive : Drive)
  /-- Is done with a job and has not yet released its key. -/
  | releasing (done : Driven)
  /-- Has released the key and not yet sent its next job on. -/
  | resuming (next : Ticket) (done : Driven)
  /-- Could not send the next job on and drops it; what is left of counting that job. -/
  | shedding (next : Ticket) (left : List Monitor.Adjustment) (done : Driven)
  /-- What is left of counting the job that the worker is done with. -/
  | counting (done : Driven) (left : List Monitor.Adjustment)
  /-- Left its loop because the channel has ended. -/
  | ended
  /-- A panic took the worker down, perhaps before it counted the job that it was done with. -/
  | crashed (uncounted : Option Driven)

/-- Why a job is not admitted. -/
inductive EnqueueError where
  | invalidKey
  | shutDown
  deriving Repr, DecidableEq

def EnqueueError.text : EnqueueError → String
  | .invalidKey => "job key must not be empty"
  | .shutDown => "job coordinator has been shut down"

/-- A call on a coordinator. -/
inductive Request where
  | enqueue (job : Job)
  | shutdown
  | waitUntilIdle (timeout : Option Duration)
  | waitUntilFinished

/-- How many jobs a call brings. -/
def Request.brings : Request → Nat
  | .enqueue _ => 1
  | _ => 0

/-- How a call returns. -/
inductive Answer where
  | admitted
  | rejected (error : EnqueueError)
  | done
  /-- Whether no job was left before the time limit. -/
  | idle (idle : Bool)
  /-- The call panicked because its time limit has no deadline. -/
  | overflow (fault : IdleWaitFault)
  /-- The call panicked on the queue's lock. -/
  | crashed (fault : SharedQueue.Fault)
  /-- The call panicked when it dropped a job, or jobs, that it had done with. -/
  | panicked (panic : Panic)
  deriving Repr, DecidableEq

/-- Where a call stands. The flag tells a shutdown that is part of finishing from one that is not.
-/
inductive Stage where
  /-- Enqueueing; the key has not been looked at. -/
  | checking (ticket : Ticket)
  /-- The gauge has been raised and the job not been pushed. -/
  | pushing (ticket : Ticket)
  /-- The push was refused and the gauge not been lowered. -/
  | refusing (ticket : Ticket)
  /-- The job was pushed and not been counted as admitted. -/
  | admitting (key : String)
  /-- The job was counted and no worker has been woken for it. -/
  | waking (key : String)
  /-- Shutting down; the mark has not been set. -/
  | marking (finishing : Bool)
  /-- The mark was set and the queue not been closed. -/
  | closing (finishing : Bool)
  /-- The queue was closed and its waiting jobs not been taken out. -/
  | discarding (finishing : Bool)
  /-- Jobs were taken out that have not been counted. They are dropped after that, and if one of
  them panics then, the call goes no further. -/
  | dropping (tickets : List Ticket) (onward : Except Panic Bool)
  /-- What is left of counting a job that was taken out, and the jobs to be counted after it. -/
  | discounting (ticket : Ticket) (left : List Monitor.Adjustment) (rest : List Ticket)
      (onward : Except Panic Bool)
  /-- Waiting for the gauge to reach zero, up to the deadline. -/
  | idling (deadline : Option Instant)
  /-- Finishing; waiting for the gauge to reach zero. -/
  | draining
  /-- The gauge was at zero and the channel has not been closed. -/
  | hangingUp
  /-- The channel was closed and no worker has been taken over to wait for. -/
  | gathering
  /-- Waiting for workers to end. -/
  | joining (workers : List Nat)
  | answered (answer : Answer)

/-- Something that happened to an admitted job. -/
inductive Event where
  | admitted (serial : Nat) (key : String)
  | called (serial : Nat) (key : String) (call : JobCall)
  /-- The drive returned, or panicked. -/
  | driven (serial : Nat) (key : String) (ending : Except Panic Resolution)
  /-- The job was dropped before it was driven. -/
  | discarded (serial : Nat) (key : String)
  /-- The job was counted as resolved. -/
  | counted (serial : Nat)

/-- A line of the log and the worker that wrote it, if a worker did. -/
structure Entry where
  worker : Option Nat
  line : LogLine
  deriving Repr, DecidableEq

structure Coordinator where
  policy : RetryPolicy
  shutdownPolicy : ShutdownPolicy
  now : Instant
  completions : Completions
  queue : SharedQueue Ticket
  monitor : Monitor
  channel : Channel Signal
  /-- Some call has started to shut down. -/
  shutDown : Bool
  /-- The owner has let go of the coordinator, so no further calls are made. -/
  abandoned : Bool
  workers : List Worker
  /-- Workers whose end no call waits for yet. -/
  unjoined : List Nat
  calls : List Stage
  /-- How many jobs were brought so far. -/
  brought : Nat
  log : Array Entry
  history : Array Event

namespace Coordinator

/-- The limits that the settings put on each job. -/
def retryPolicy (config : Config) : RetryPolicy :=
  ⟨config.completionTimeout, config.retryBackoff⟩

/-- A coordinator with idle workers. -/
def fresh (config : Config) : Coordinator :=
  let count := config.workers.toNat
  let indices := List.range count
  let arrivals := indices.map fun i => Entry.mk (some i) (.debug s!"Starting job worker {i}")
  { policy := retryPolicy config
    shutdownPolicy := config.shutdownPolicy
    now := Instant.start
    completions := .empty
    queue := .sound .empty
    monitor := .empty
    channel := .empty
    shutDown := false
    abandoned := false
    workers := List.replicate count .receiving
    unjoined := indices
    calls := []
    brought := 0
    log := #[Entry.mk none (.info s!"Started {count} job workers")] ++ arrivals
    history := #[] }

/-- Starts a coordinator, unless the settings are refused. -/
def start (config : Config) : Except ConfigFault Coordinator :=
  config.validate.map fun _ => fresh config

/-- The message with which a coordinator is refused for its settings. -/
def invalidConfigText (reason : String) : String :=
  "invalid coordinator config: " ++ reason

/-- The number of admitted jobs that are not resolved. -/
def incomplete (s : Coordinator) : Nat :=
  s.monitor.incomplete

/-- The counters now. -/
def snapshot (s : Coordinator) : Except SharedQueue.Fault Snapshot :=
  s.queue.keyCount.map fun keys => ⟨s.monitor, keys⟩

def describe (s : Coordinator) : Text.Record :=
  ⟨"JobCoordinator", [("incomplete", toString s.incomplete),
    ("shutdown_policy", s.shutdownPolicy.name), ("shut_down", Text.ofBool s.shutDown)]⟩

/-- The lines of the log that no worker wrote, from a position on. -/
def callerLog (s : Coordinator) (since : Nat) : List LogLine :=
  (s.log.extract since s.log.size).toList.filterMap fun entry =>
    if entry.worker.isNone then some entry.line else none

/-- The lines of the log that workers wrote, from a position on. -/
def workerLog (s : Coordinator) (since : Nat) : List LogLine :=
  (s.log.extract since s.log.size).toList.filterMap fun entry =>
    if entry.worker.isSome then some entry.line else none

/-- The calls into jobs, with the jobs' numbers, from a position in the history on. -/
def jobCalls (s : Coordinator) (since : Nat) : List (Nat × JobCall) :=
  (s.history.extract since s.history.size).toList.filterMap fun
    | .called serial _ call => some (serial, call)
    | _ => none

end Coordinator

end KeyedJobs
