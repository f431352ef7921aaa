import KeyedJobs.Completion.Write

/-! # Outcomes of attempts

The combined result of all completions of one attempt: how many there were and which of them did not
succeed, each with its error.
-/

namespace KeyedJobs

/-- A completion that did not succeed. -/
structure Failure where
  completion : CompletionId
  error : CompletionError
  deriving Repr, DecidableEq

structure Outcome where
  total : Nat
  failures : List Failure
  deriving Repr, DecidableEq

namespace Outcome

def isSuccess (outcome : Outcome) : Bool :=
  outcome.failures.isEmpty

/-- The completions that did not succeed, in order. -/
def failedCompletions (outcome : Outcome) : List CompletionId :=
  outcome.failures.map (·.completion)

/-- The outcome of an attempt that handed back no completions because its call failed: one failed
    completion, made for this purpose, stands for the call. -/
def ofError (error : CompletionError) (cs : Completions) : Outcome × Completions :=
  let (id, cs) := cs.add (.unresolved (.known (.failure error)))
  (⟨1, [⟨id, error⟩]⟩, cs)

/-- How many completions failed, out of how many, and with which errors. -/
def summary (outcome : Outcome) : String :=
  let errors := Text.joined "; " (outcome.failures.map (·.error.text))
  s!"{outcome.failures.length} of {outcome.total} completions failed [{errors}]"

end Outcome

end KeyedJobs
