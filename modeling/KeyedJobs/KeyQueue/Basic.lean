import KeyedJobs.Log

/-! # The queue of waiting jobs

Jobs wait in one line per key, first in first out, and a line is active while a job of its key has
been handed out and not been released. At most one job of a key is handed out at a time. Lines come
and go: one is there while it is active or holds a job. The kind of job does not matter here; the
key is given with each operation.
-/

namespace KeyedJobs

/-- The jobs of one key. -/
structure KeyLine (α : Type) where
  /-- Waiting jobs, the next one first. -/
  waiting : List α
  /-- A job of the key has been handed out and not been released. -/
  active : Bool
  deriving Repr, DecidableEq

structure KeyQueue (α : Type) where
  /-- The lines by key, in the order in which they came. -/
  lines : List (String × KeyLine α)
  closed : Bool
  deriving Repr, DecidableEq

/-- A key was released that has waiting jobs but none handed out. -/
structure InactiveRelease where
  key : String
  deriving Repr, DecidableEq

def InactiveRelease.text (fault : InactiveRelease) : String :=
  "release of inactive key " ++ fault.key

namespace KeyQueue

variable {α : Type}

def empty : KeyQueue α := ⟨[], false⟩

/-- The line of a key, if it is there. -/
def line? (q : KeyQueue α) (key : String) : Option (KeyLine α) :=
  q.lines.lookup key

/-- Puts a line in the place of the key's line, or behind all others if the key has none. -/
def setLine (key : String) (line : KeyLine α) :
    List (String × KeyLine α) → List (String × KeyLine α)
  | [] => [(key, line)]
  | (other, present) :: rest =>
      if other = key then (key, line) :: rest else (other, present) :: setLine key line rest

/-- The lines without the key's. -/
def dropLine (key : String) (lines : List (String × KeyLine α)) : List (String × KeyLine α) :=
  lines.filter (·.1 ≠ key)

/-- Appends a job to the line of its key. A closed queue hands the job back instead. -/
def push (q : KeyQueue α) (key : String) (job : α) : Except α (KeyQueue α) :=
  if q.closed then .error job
  else
    let line := (q.line? key).getD ⟨[], false⟩
    .ok { q with lines := setLine key { line with waiting := line.waiting ++ [job] } q.lines }

/-- Hands out the next job of an inactive key, which is active from then on. -/
def tryActivate (q : KeyQueue α) (key : String) : Option α × KeyQueue α :=
  match q.line? key with
  | some ⟨job :: rest, false⟩ => (some job, { q with lines := setLine key ⟨rest, true⟩ q.lines })
  | _ => (none, q)

/-- Ends the job that is handed out and hands out the next job of the key, if there is one.
Otherwise the key's line goes. -/
def release (q : KeyQueue α) (key : String) : Except InactiveRelease (Option α × KeyQueue α) :=
  match q.line? key with
  | none => .ok (none, q)
  | some ⟨_, false⟩ => .error ⟨key⟩
  | some ⟨job :: rest, true⟩ =>
      .ok (some job, { q with lines := setLine key ⟨rest, true⟩ q.lines })
  | some ⟨[], true⟩ => .ok (none, { q with lines := dropLine key q.lines })

/-- Refuses all further jobs. -/
def close (q : KeyQueue α) : KeyQueue α :=
  { q with closed := true }

/-- The waiting jobs of every line, line by line. -/
def allWaiting (q : KeyQueue α) : List (String × α) :=
  q.lines.flatMap fun (key, line) => line.waiting.map (key, ·)

/-- Takes out every job that has not been handed out. Only active lines stay. -/
def discardWaiting (q : KeyQueue α) : List (String × α) × KeyQueue α :=
  let kept := q.lines.filter fun (_, line) => line.active
  (q.allWaiting, { q with lines := kept.map fun (key, _) => (key, ⟨[], true⟩) })

/-- What discarding the waiting jobs logs. -/
def discardLog (q : KeyQueue α) : List LogLine :=
  q.lines.filterMap fun (key, line) =>
    if line.waiting.isEmpty then none
    else some (.debug s!"Discarding {line.waiting.length} waiting jobs of key {key}")

/-- The number of keys with a job that waits or is handed out. -/
def keyCount (q : KeyQueue α) : Nat :=
  q.lines.length

end KeyQueue

end KeyedJobs
