import KeyedJobs.Coordinator.Step

/-! # A schedule for a coordinator

One way of choosing moves, so that a coordinator can be run: workers go before calls, each by
number, and time passes only when nobody can move. A run may be patient only up to a span: then no
time passes for the sake of time limits that are as long. Whatever holds after every order of moves
holds after these.
-/

namespace KeyedJobs

/-- The instant at which time alone lets a worker move. -/
def Worker.wakeAt? (cs : Completions) : Worker → Option Instant
  | .driving _ drive => drive.wakeAt? cs
  | _ => none

/-- Whether the wait is left to time: its limit is shorter than `patience`, or no open position
waits for a result that is to be sent. -/
def Aggregation.isPassing (cs : Completions) (patience : Duration) (waiting : Aggregation) : Bool :=
  waiting.limit.any (·.span.nanoseconds < patience.nanoseconds) ||
    waiting.slots.all fun slot => slot.result.isSome || !cs.awaitsSender slot.completion

/-- Whether the worker waits and its wait is left to time. -/
def Worker.isPassing (cs : Completions) (patience : Duration) : Worker → Bool
  | .driving _ drive =>
      match drive.phase with
      | .collecting waiting | .revertCollecting waiting => waiting.isPassing cs patience
      | .pausing _ => true
      | _ => false
  | _ => false

/-- The instant at which time alone lets a call move. -/
def Stage.wakeAt? : Stage → Option Instant
  | .idling deadline => deadline
  | _ => none

namespace Coordinator

/-- The step that is taken next, if somebody can move. -/
def nextStep? (s : Coordinator) : Option Move :=
  match s.workers.findIdx? s.canStepWorker with
  | some index => some (.worker index)
  | none => (s.calls.findIdx? s.canStepCall).map .call

/-- The next instant at which time alone lets somebody move. -/
def wakeAt? (s : Coordinator) : Option Instant :=
  let workers := s.workers.filterMap (Worker.wakeAt? s.completions)
  let calls := s.calls.filterMap Stage.wakeAt?
  (workers ++ calls).min?

/-- Whether time is let pass, with nobody able to move: for a call that has a deadline, and for a
worker whose wait is left to time. Without a limit to the patience it always is. -/
def letsTimePass (s : Coordinator) (patience : Option Duration) : Bool :=
  patience.all fun patience =>
    s.calls.any (·.wakeAt?.isSome) || s.workers.any (Worker.isPassing s.completions patience)

/-- The move that is made next. When time passes, it passes for all, so limits of any length may run
out while somebody is waited for. -/
def nextMove? (s : Coordinator) (patience : Option Duration) : Option Move :=
  match s.nextStep? with
  | some step => some step
  | none => s.wakeAt?.bind fun due =>
      if s.now < due ∧ s.letsTimePass patience then some (.elapse due) else none

/-- Makes moves until `stop` holds or no move is left, and at most `fuel` of them. -/
def run (stop : Coordinator → Bool) (patience : Option Duration) (s : Coordinator) :
    (fuel : Nat) → Coordinator
  | 0 => s
  | fuel + 1 =>
      if stop s then s
      else match s.nextMove? patience with
        | some m => run stop patience (s.move m) fuel
        | none => s

/-- As many moves as are made where no other number is given, which is more than any run takes that
is worth waiting for. -/
def enoughMoves : Nat := 1000000000000

/-- Lets the workers go on until each of them is idle or waits for a result that is to be sent,
unless a limit shorter than `patience` ends its wait. -/
def settle (s : Coordinator) (patience : Option Duration) (fuel : Nat := enoughMoves) :
    Coordinator :=
  s.run (fun _ => false) patience fuel

/-- The answer to a call, once it has one. -/
def answer? (s : Coordinator) (call : Nat) : Option Answer :=
  match s.calls[call]? with
  | some (.answered answer) => some answer
  | _ => none

/-- Makes a call and runs until it is answered, for at most `fuel` moves. There is no answer to a
call that blocks for good. -/
def perform? (s : Coordinator) (request : Request) (fuel : Nat := enoughMoves) :
    Option (Answer × Coordinator) :=
  let call := s.calls.length
  let after := (s.move (.begin request)).run (fun s => (s.answer? call).isSome) none fuel
  (after.answer? call).map fun answer => (answer, after.move (.leave call))

end Coordinator

end KeyedJobs
