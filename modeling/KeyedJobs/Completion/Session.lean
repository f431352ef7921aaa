import KeyedJobs.Completion.Aggregation
import KeyedJobs.Completion.Audience

/-! # Waiting with chained completions

A clock, completions and their audience, and what can be done with them: to wait for a moment, which
is one poll, and to wait for several completions at once until each has ended or the limit has run
out.

When a task ends with a panic, only the poll that meets it raises that panic, so it matters which of
the waiting positions polls first. A small aggregation polls all its open positions, in order,
whenever one of them may have moved. A large one polls the positions that were told, so of those
that wait for one task the position that is told first polls first. A position whose completion has
not moved may be polled or not, without a difference.
-/

namespace KeyedJobs

namespace Aggregation

/-- How many positions a small aggregation has at most. -/
def smallSize : Nat := 30

/-- Whether only the positions that were told are polled. -/
def isLarge (waiting : Aggregation) : Bool :=
  smallSize < waiting.slots.length

/-- Polls the positions that `picked` names, in order; the first one has the number `index`. -/
def pollPicked (now : Instant) (limit : Option TimeLimit) (picked : List Nat) (cs : Completions) :
    (index : Nat) → List Slot → List Slot × Completions
  | _, [] => ([], cs)
  | index, slot :: rest =>
      let (slot, cs) := if index ∈ picked then slot.poll now limit cs else (slot, cs)
      let (rest, cs) := pollPicked now limit picked cs (index + 1) rest
      (slot :: rest, cs)

/-- Polls the open positions, those in `first` before the others. -/
def pollFrom (now : Instant) (cs : Completions) (waiting : Aggregation) (first : List Nat) :
    Aggregation × Completions :=
  let (slots, cs) := pollPicked now waiting.limit first cs 0 waiting.slots
  { waiting with slots }.poll now cs

end Aggregation

/-- Notes for each position, in order, that it waits for its completion, and that it does not any
more if a poll has decided it. -/
def Audience.follow (a : Audience) (cs : Completions) :
    (index : Nat) → (before after : List Slot) → Audience
  | index, old :: before, new :: after =>
      let a := if old.result.isSome then a else a.attend cs index old.completion
      let a := if old.result.isNone && new.result.isSome then a.leave index old.completion else a
      follow a cs (index + 1) before after
  | _, _, _ => a

/-- Completions at an instant, and who listens to them. -/
structure CompletionSession where
  now : Instant
  completions : Completions
  audience : Audience

namespace CompletionSession

def empty : CompletionSession := ⟨.start, .empty, .empty⟩

/-- Polls a completion once. -/
def wait (s : CompletionSession) (id : CompletionId) : Poll × CompletionSession :=
  let (yielded, completions) := s.completions.poll s.now id
  (yielded, { s with completions, audience := s.audience.link completions id })

/-- Polls completions one after the other. -/
def waitEach (s : CompletionSession) : List CompletionId → List Poll × CompletionSession
  | [] => ([], s)
  | id :: rest =>
      let (yielded, s) := s.wait id
      let (others, s) := s.waitEach rest
      (yielded :: others, s)

/-- Of the positions that wait for a task whose sleep has ended, the ones that were told first. -/
def leaders (s : CompletionSession) (waiting : Aggregation) : List Nat :=
  let count := s.completions.entries.size
  waiting.slots.filterMap fun slot =>
    if slot.result.isNone && s.completions.isReady s.now slot.completion then
      s.audience.firstTold? count (s.completions.root slot.completion)
    else none

/-- One round of polls. -/
def poll (s : CompletionSession) (waiting : Aggregation) : Aggregation × CompletionSession :=
  let first := if waiting.isLarge then s.leaders waiting else []
  let (polled, completions) := waiting.pollFrom s.now s.completions first
  let audience := s.audience.follow completions 0 waiting.slots polled.slots
  (polled, { s with completions, audience })

/-- Polls again and again, letting time pass in between, until every position has its result. There
is no answer if time alone does not bring that about within `fuel` rounds. -/
def run (s : CompletionSession) (waiting : Aggregation) :
    (fuel : Nat) → Option (Outcome × CompletionSession)
  | 0 => none
  | fuel + 1 =>
      let (waiting, s) := s.poll waiting
      if waiting.isComplete then some (waiting.outcome, s)
      else (waiting.wakeAt? s.completions).bind fun next =>
        run { s with now := max s.now next } waiting fuel

/-- The outcome of completions once each of them has ended or the limit has run out. Each wait ends
a position, so no more rounds are needed than there are positions, and one. -/
def aggregate? (s : CompletionSession) (limit : Option Duration) (ids : List CompletionId) :
    Option (Outcome × CompletionSession) :=
  s.run (Aggregation.begin s.now limit ids) (ids.length + 1)

/-- Lets go of all completions but the held ones and what they carry over. -/
def keepOnly (s : CompletionSession) (held : List CompletionId) : CompletionSession :=
  { s with audience := s.audience.keepOnly s.completions held }

end CompletionSession

end KeyedJobs
