import KeyedJobs.KeyQueue.Basic
import KeyedJobs.Lock

/-! # Operations on a shared queue

The operations on a queue as values, and what each of them answers when it is carried out under the
queue's lock. A history of a queue is a list of operations.
-/

namespace KeyedJobs

namespace KeyQueue

variable {α : Type}

inductive Operation (α : Type) where
  | push (key : String) (job : α)
  | tryActivate (key : String)
  | release (key : String)
  | close
  | discardWaiting
  deriving Repr, DecidableEq

inductive Reply (α : Type) where
  | accepted
  | refused (key : String) (job : α)
  /-- The job handed out for a key, if any. -/
  | handedOut (key : String) (job : Option α)
  | closed
  | discarded (jobs : List (String × α))
  deriving Repr, DecidableEq

/-- Carries out one operation. -/
def perform (q : KeyQueue α) : Operation α → Except InactiveRelease (Reply α × KeyQueue α)
  | .push key job =>
      match q.push key job with
      | .ok q => .ok (.accepted, q)
      | .error job => .ok (.refused key job, q)
  | .tryActivate key =>
      let (job, q) := q.tryActivate key
      .ok (.handedOut key job, q)
  | .release key => (q.release key).map fun (job, q) => (.handedOut key job, q)
  | .close => .ok (.closed, q.close)
  | .discardWaiting =>
      let (jobs, q) := q.discardWaiting
      .ok (.discarded jobs, q)

/-- What the operation logs. -/
def logOf (q : KeyQueue α) : Operation α → List LogLine
  | .discardWaiting => q.discardLog
  | _ => []

end KeyQueue

/-- A queue that several threads share. -/
abbrev SharedQueue (α : Type) := Lock (KeyQueue α)

namespace SharedQueue

variable {α : Type}

/-- Why an access to a shared queue panics. -/
abbrev Fault := LockPanic InactiveRelease

def Fault.text : Fault → String
  | .raised reason => reason.text
  | .poisoned => poisonedLockText

/-- Carries out one operation under the lock. -/
def perform (queue : SharedQueue α) (operation : KeyQueue.Operation α) :
    Except Fault (KeyQueue.Reply α) × SharedQueue α :=
  queue.access fun q => q.perform operation

/-- What the operation logs when it is carried out. -/
def logOf (queue : SharedQueue α) (operation : KeyQueue.Operation α) : List LogLine :=
  match queue with
  | .sound q => q.logOf operation
  | .poisoned => []

/-- The replies to operations carried out one after the other, and the queue after them. -/
def performEach (queue : SharedQueue α) :
    List (KeyQueue.Operation α) → List (Except Fault (KeyQueue.Reply α)) × SharedQueue α
  | [] => ([], queue)
  | operation :: rest =>
      let (reply, queue) := queue.perform operation
      let (replies, queue) := queue.performEach rest
      (reply :: replies, queue)

def keyCount (queue : SharedQueue α) : Except Fault Nat :=
  queue.read KeyQueue.keyCount

def isClosed (queue : SharedQueue α) : Except Fault Bool :=
  queue.read (·.closed)

end SharedQueue

end KeyedJobs
