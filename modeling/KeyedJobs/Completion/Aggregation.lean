import KeyedJobs.Completion.Outcome

/-! # Waiting for several completions

An aggregation waits until each of its completions has ended or its time limit has run out, and then
says which of them did not succeed. It goes on after a failure, so its outcome names every failed
position. It moves by polling: one poll visits the positions that are still open, in order, and a
result that is there at a poll wins over a limit that has run out at the same poll.
-/

namespace KeyedJobs

/-- A time limit and the instant at which it runs out. -/
structure TimeLimit where
  span : Duration
  expiresAt : Instant
  deriving Repr, DecidableEq

/-- One position of an aggregation: its completion, and its result once that is known. -/
structure Slot where
  completion : CompletionId
  result : Option CompletionResult
  deriving Repr, DecidableEq

structure Aggregation where
  limit : Option TimeLimit
  slots : List Slot
  deriving Repr, DecidableEq

namespace TimeLimit

def begin (now : Instant) (span : Duration) : TimeLimit :=
  ⟨span, now.after span⟩

def isOver (limit : TimeLimit) (now : Instant) : Bool :=
  limit.expiresAt ≤ now

end TimeLimit

/-- The result of a position that was polled, if the poll or the limit decides it. -/
def Poll.result? (now : Instant) (limit : Option TimeLimit) : Poll → Option CompletionResult
  | .ready result => some result
  | .raised panic => some (.failure (.ofPanic panic))
  | .pending =>
      match limit with
      | some limit => if limit.isOver now then some (.failure (.timedOut limit.span)) else none
      | none => none

namespace Slot

/-- Polls the position's completion unless its result is known. -/
def poll (now : Instant) (limit : Option TimeLimit) (cs : Completions) (slot : Slot) :
    Slot × Completions :=
  match slot.result with
  | some _ => (slot, cs)
  | none =>
      let (yielded, cs) := cs.poll now slot.completion
      ({ slot with result := yielded.result? now limit }, cs)

def failure? (slot : Slot) : Option Failure :=
  match slot.result with
  | some (.failure error) => some ⟨slot.completion, error⟩
  | _ => none

end Slot

namespace Aggregation

/-- An aggregation that has not polled yet. Its limit counts from now. -/
def begin (now : Instant) (limit : Option Duration) (ids : List CompletionId) : Aggregation :=
  ⟨limit.map (TimeLimit.begin now), ids.map (⟨·, none⟩)⟩

/-- Polls positions in order. -/
def pollSlots (now : Instant) (limit : Option TimeLimit) (cs : Completions) :
    List Slot → List Slot × Completions
  | [] => ([], cs)
  | slot :: rest =>
      let (slot, cs) := slot.poll now limit cs
      let (rest, cs) := pollSlots now limit cs rest
      (slot :: rest, cs)

def poll (now : Instant) (cs : Completions) (waiting : Aggregation) : Aggregation × Completions :=
  let (slots, cs) := pollSlots now waiting.limit cs waiting.slots
  ({ waiting with slots }, cs)

/-- Every position has its result. -/
def isComplete (waiting : Aggregation) : Bool :=
  waiting.slots.all (·.result.isSome)

/-- What the results known so far amount to. -/
def outcome (waiting : Aggregation) : Outcome :=
  ⟨waiting.slots.length, waiting.slots.filterMap Slot.failure?⟩

/-- Whether a poll now would decide a position. -/
def isReady (now : Instant) (cs : Completions) (waiting : Aggregation) : Bool :=
  waiting.slots.any fun slot =>
    slot.result.isNone && (cs.isReady now slot.completion || waiting.limit.any (·.isOver now))

/-- The next instant at which time alone decides a position. -/
def wakeAt? (cs : Completions) (waiting : Aggregation) : Option Instant :=
  let sleeps := waiting.slots.filterMap fun slot =>
    if slot.result.isNone then cs.wakeAt? slot.completion else none
  (waiting.limit.map (·.expiresAt)).toList.append sleeps |>.min?

end Aggregation

end KeyedJobs
