import KeyedJobs.Completion.Store

/-! # Writes

What the writes that a job starts turn out to do. Starting a write makes its completion.
-/

namespace KeyedJobs

/-- One write, by what becomes of it. -/
inductive Write where
  | succeeded
  | failed (error : ErrorChain)
  /-- Nobody is left who could resolve it. -/
  | dropped
  /-- Whoever could resolve it never does. -/
  | never
  /-- Resolved by hand under a name. -/
  | gate (name : String)
  /-- A task that sleeps, if told so, and then ends. -/
  | task (sleep : Option Duration) (ending : TaskEnding)
  /-- One more holder of a completion that exists already. -/
  | existing (completion : CompletionId)
  deriving Repr, DecidableEq

namespace Completions

/-- Starts a write: its completion, and the store with it. -/
def start (cs : Completions) : Write → CompletionId × Completions
  | .succeeded => cs.add (.unresolved (.known .success))
  | .failed error => cs.add (.unresolved (.known (.failure (.failed error))))
  | .dropped => cs.add (.unresolved (.manual (some (.failure .dropped))))
  | .never => cs.add (.unresolved (.manual none))
  | .gate name => cs.addNamed name
  | .task sleep ending => cs.add (.unresolved (.task sleep none ending))
  | .existing completion => (completion, cs)

/-- Starts writes in order. -/
def startEach (cs : Completions) : List Write → List CompletionId × Completions
  | [] => ([], cs)
  | write :: rest =>
      let (id, cs) := cs.start write
      let (ids, cs) := cs.startEach rest
      (id :: ids, cs)

end Completions

end KeyedJobs
