import KeyedJobs.Completion.Error
import KeyedJobs.Text.Record

/-! # Completions

A completion stands for one outstanding write. All completions of a program are kept in one store
and named by their number, so every holder of a number observes the same resolution. A completion
moves only when it is polled: a poll that finds its result ready resolves it for all holders, and a
poll that meets the panic of its task poisons it.

Covered are making, polling, peeking, describing and resolving by hand. Waiting for several
completions at once is not; an aggregation does that by polling.
-/

namespace KeyedJobs

/-- The number of a completion in its store. -/
abbrev CompletionId := Nat

/-- How a task ends once its sleep is over. -/
inductive TaskEnding where
  | succeeds
  | fails (error : ErrorChain)
  | panics (panic : Panic)
  deriving Repr, DecidableEq

/-- Where an unresolved completion gets its result from. -/
inductive Origin where
  /-- The result is known from the start. -/
  | known (result : CompletionResult)
  /-- The result is sent by hand. -/
  | manual (sent : Option CompletionResult)
  /-- A task that sleeps and then ends. The sleep begins at the first poll, and if it leads beyond
  the clock's range it has no end. -/
  | task (sleep : Option Duration) (wakeAt : Option Instant) (ending : TaskEnding)
  deriving Repr, DecidableEq

inductive Completion where
  | unresolved (origin : Origin)
  /-- Unresolved, and carries over the result of an older completion. -/
  | chained (source : CompletionId)
  | resolved (result : CompletionResult)
  /-- Its own task has panicked during a poll. -/
  | poisoned
  deriving Repr, DecidableEq

/-- What one poll of a completion yields. -/
inductive Poll where
  | pending
  | ready (result : CompletionResult)
  | raised (panic : Panic)
  deriving Repr, DecidableEq

namespace Poll

/-- What a completion yields whose source yields this. An error is kept by its text. -/
def carriedOver : Poll → Poll
  | .pending => .pending
  | .ready .success => .ready .success
  | .ready (.failure error) => .ready (.failure error.carriedOver)
  | .raised panic => .raised panic

theorem carriedOver_eq_pending_iff {p : Poll} : p.carriedOver = .pending ↔ p = .pending := by
  rcases p with _ | (_ | _) | _ <;> simp [carriedOver]

end Poll

namespace TaskEnding

def poll : TaskEnding → Poll
  | .succeeds => .ready .success
  | .fails error => .ready (.failure (.failed error))
  | .panics panic => .raised panic

end TaskEnding

namespace Origin

/-- One poll of an origin, and the origin afterwards. -/
def poll (now : Instant) : Origin → Poll × Origin
  | .known result => (.ready result, .known result)
  | .manual (some result) => (.ready result, .manual (some result))
  | .manual none => (.pending, .manual none)
  | .task none wakeAt ending => (ending.poll, .task none wakeAt ending)
  | .task (some sleep) wakeAt ending =>
      match wakeAt.or (now.wakeUp? sleep) with
      | some due =>
          (if due ≤ now then ending.poll else .pending, .task (some sleep) (some due) ending)
      | none => (.pending, .task (some sleep) none ending)

variable {now due : Instant} {sleep : Duration} {wakeAt : Option Instant} {ending : TaskEnding}

theorem poll_of_due (wakes : wakeAt.or (now.wakeUp? sleep) = some due) :
    (task (some sleep) wakeAt ending).poll now =
      (if due ≤ now then ending.poll else .pending, task (some sleep) (some due) ending) := by
  simp only [poll, wakes]

/-- A sleep that never ends leaves the task as it is. -/
theorem poll_of_endless (endless : wakeAt.or (now.wakeUp? sleep) = none) :
    (task (some sleep) wakeAt ending).poll now = (.pending, task (some sleep) wakeAt ending) := by
  obtain ⟨rfl, -⟩ := Option.or_eq_none_iff.mp endless
  simp only [poll, endless]

end Origin

/-- The completions made so far, and the senders that are kept open under a name. -/
structure Completions where
  entries : Array Completion
  senders : List (String × CompletionId)
  deriving Repr, DecidableEq

namespace Completions

def empty : Completions := ⟨#[], []⟩

/-- Using a completion whose task has panicked raises this instead of the panic of the task. -/
def poisonedPanic : Panic := .text "inner future panicked during poll"

/-- Adds a completion and returns its number. -/
def add (cs : Completions) (completion : Completion) : CompletionId × Completions :=
  (cs.entries.size, { cs with entries := cs.entries.push completion })

def put (cs : Completions) (id : CompletionId) (completion : Completion) : Completions :=
  { cs with entries := cs.entries.setIfInBounds id completion }

/-- What a poll leaves of the polled completion. -/
def conclude (cs : Completions) (id : CompletionId) : Poll → Completions
  | .pending => cs
  | .ready result => cs.put id (.resolved result)
  | .raised _ => cs.put id .poisoned

/-- Polls a completion once. A chained completion polls its source, which is older. -/
def poll (now : Instant) (cs : Completions) (id : CompletionId) : Poll × Completions :=
  match cs.entries[id]? with
  | none => (.pending, cs)
  | some (.resolved result) => (.ready result, cs)
  | some .poisoned => (.raised poisonedPanic, cs)
  | some (.unresolved origin) =>
      let (yielded, origin) := origin.poll now
      (yielded, (cs.put id (.unresolved origin)).conclude id yielded)
  | some (.chained source) =>
      if source < id then
        let (yielded, cs) := poll now cs source
        (yielded.carriedOver, cs.conclude id yielded.carriedOver)
      else (.pending, cs)
termination_by id

/-- Polls completions one after the other. -/
def pollEach (now : Instant) (cs : Completions) : List CompletionId → List Poll × Completions
  | [] => ([], cs)
  | id :: rest =>
      let (yielded, cs) := cs.poll now id
      let (others, cs) := pollEach now cs rest
      (yielded :: others, cs)

/-- Whether a poll would not find the completion pending. -/
def isReady (now : Instant) (cs : Completions) (id : CompletionId) : Bool :=
  match cs.entries[id]? with
  | none => false
  | some (.resolved _) => true
  | some .poisoned => true
  | some (.unresolved origin) => (origin.poll now).1 ≠ .pending
  | some (.chained source) => if source < id then isReady now cs source else false
termination_by id

theorem isReady_iff (now : Instant) (cs : Completions) (id : CompletionId) :
    cs.isReady now id = true ↔ (cs.poll now id).1 ≠ .pending := by
  fun_induction isReady now cs id <;> rw [poll] <;>
    simp_all [Poll.carriedOver_eq_pending_iff, Nat.not_lt.2]

/-- The end of the sleep that a pending completion waits for, if that is what it waits for. -/
def wakeAt? (cs : Completions) (id : CompletionId) : Option Instant :=
  match cs.entries[id]? with
  | some (.unresolved (.task (some _) wakeAt _)) => wakeAt
  | some (.chained source) => if source < id then wakeAt? cs source else none
  | _ => none
termination_by id

/-- Whether a pending completion waits for a result that is to be sent under a name. -/
def awaitsSender (cs : Completions) (id : CompletionId) : Bool :=
  match cs.entries[id]? with
  | some (.unresolved (.manual none)) => cs.senders.any (·.2 = id)
  | some (.chained source) => if source < id then awaitsSender cs source else false
  | _ => false
termination_by id

/-- The completion whose result a pending completion carries over in the end. One that is not
chained is its own root. -/
def root (cs : Completions) (id : CompletionId) : CompletionId :=
  match cs.entries[id]? with
  | some (.chained source) => if source < id then root cs source else id
  | _ => id
termination_by id

/-- The result, if some poll has already resolved the completion. Does not poll. -/
def peek (cs : Completions) (id : CompletionId) : Except Panic (Option CompletionResult) :=
  match cs.entries[id]? with
  | some (.resolved result) => .ok (some result)
  | some .poisoned => .error poisonedPanic
  | _ => .ok none

/-- The word or words for what a peek shows. -/
def stateText : Option CompletionResult → String
  | none => "pending"
  | some .success => "succeeded"
  | some (.failure error) => "failed: " ++ error.text

/-- The description of a completion. It peeks, so a poisoned completion raises its panic. -/
def describe (cs : Completions) (id : CompletionId) : Except Panic Text.Record :=
  (cs.peek id).map fun result => ⟨"PendingCompletion", [("state", Text.quoted (stateText result))]⟩

/-- Sends a result by hand. Nothing happens if one was sent before. -/
def send (cs : Completions) (id : CompletionId) (result : CompletionResult) : Completions :=
  match cs.entries[id]? with
  | some (.unresolved (.manual none)) =>
      cs.put id (.unresolved (.manual (some result)))
  | _ => cs

/-- Uses up the sender kept under a name. There is no result if no sender has that name. -/
def resolve? (cs : Completions) (name : String) (result : CompletionResult) : Option Completions :=
  (cs.senders.lookup name).map fun id =>
    { cs.send id result with senders := cs.senders.filter (·.1 ≠ name) }

/-- Makes a completion that is resolved by hand under a name. An open sender of that name is
    replaced, and its completion is thereby dropped. -/
def addNamed (cs : Completions) (name : String) : CompletionId × Completions :=
  let cs := (cs.resolve? name (.failure .dropped)).getD cs
  let (id, cs) := cs.add (.unresolved (.manual none))
  (id, { cs with senders := cs.senders ++ [(name, id)] })

/-- Makes a completion that carries over the result of another. -/
def addChained (cs : Completions) (source : CompletionId) : CompletionId × Completions :=
  cs.add (.chained source)

/-- The names under which a sender is open, oldest first. -/
def openNames (cs : Completions) : List String :=
  cs.senders.map (·.1)

end Completions

end KeyedJobs
