import KeyedJobs.Job

/-! # A load of simulated jobs

A load is a number of jobs that are spread over keys in turn. Each attempt of a job starts writes
that take some time; a roll that depends only on the job's number and the attempt's decides whether
one of them fails.
-/

namespace KeyedJobs.Load

structure Profile where
  keys : Nat := 10
  jobs : Nat := 100
  writesPerJob : Nat := 2
  maxRetries : Nat := 2
  /-- How many of a hundred attempts have a failing write. -/
  failurePercent : Nat := 10
  withCompensator : Bool := false
  writeLatency : Duration := .ofMillis 1
  deriving Repr, DecidableEq

/-- Why there is no roll: a number on the way to it does not fit 64 bits. -/
inductive RollFault where
  | product
  | sum
  deriving Repr, DecidableEq

def RollFault.text : RollFault → String
  | product => "attempt to multiply with overflow"
  | sum => "attempt to add with overflow"

/-- The number below a hundred that an attempt rolls. -/
def roll (seq attempt : Nat) : Except RollFault Nat :=
  let product := seq * 2654435761
  let sum := product + attempt * 40503
  if UInt64.size ≤ product then .error .product
  else if UInt64.size ≤ sum then .error .sum
  else .ok (sum % 100)

/-- Whether an attempt has a failing write. -/
def attemptFails (seq attempt percent : Nat) : Except RollFault Bool :=
  (roll seq attempt).map fun n => decide (n < percent)

/-- How many completions a vector has room for: one takes sixteen bytes, and no vector takes more
than `2 ^ 63 - 1` of them. -/
def mostCompletions : Nat := 576460752303423487

namespace Profile

/-- How many writes an attempt starts. -/
def width (p : Profile) : Nat := p.writesPerJob - 1 + 1

/-- The key of a job, by the job's number. -/
def keyOf (p : Profile) (seq : Nat) : String :=
  s!"entity-{seq % max p.keys 1}"

/-- A write of a job with the given key. -/
def write (p : Profile) (key : String) (fails : Bool) : Write :=
  .task (some p.writeLatency)
    (if fails then .fails ⟨[s!"simulated write conflict on {key}"]⟩ else .succeeds)

/-- The writes of an attempt. If the attempt fails it is by the first of them. -/
def writes (p : Profile) (key : String) (fails : Bool) : List Write :=
  p.write key fails :: List.replicate (p.writesPerJob - 1) (p.write key false)

/-- An attempt of a job. It panics if there is no room for its completions. -/
def attempt (p : Profile) (seq number : Nat) : Call :=
  match attemptFails seq number p.failurePercent with
  | .ok fails =>
      if p.width ≤ mostCompletions then .writes (p.writes (p.keyOf seq) fails)
      else .panics (.text "capacity overflow")
  | .error fault => .panics (.text fault.text)

/-- Reverts what an abandoned job with the given key left behind, by one more write. -/
def compensator (p : Profile) (key : String) : Compensator where
  respond _ := .writes [p.write key false]
  inspects := false
  remark failed := [.debug s!"Reverting {failed} failed writes on {key}"]

def job (p : Profile) (seq : Nat) : Job :=
  let plain := ((Job.new (p.keyOf seq) (p.attempt seq)).withDesc s!"load-{seq}").withMaxRetries
    p.maxRetries
  if p.withCompensator then plain.withCompensator (p.compensator (p.keyOf seq)) else plain

end Profile

end KeyedJobs.Load
