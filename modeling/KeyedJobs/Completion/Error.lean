import KeyedJobs.Duration

/-! # Why a completion does not succeed

Errors with their contexts, the payloads of panics, and the four ways in which a completion ends
badly, each with its text.
-/

namespace KeyedJobs

/-- An error as the texts of its contexts, outermost first, down to the root cause. -/
structure ErrorChain where
  texts : List String
  deriving Repr, DecidableEq

/-- The contexts on one line. -/
def ErrorChain.text (error : ErrorChain) : String :=
  Text.joined ": " error.texts

/-- What a panic carries: a text, or a value that is no text. -/
inductive Panic where
  | text (message : String)
  | other
  deriving Repr, DecidableEq

/-- The text by which a caught panic is reported. -/
def Panic.message : Panic → String
  | .text message => message
  | .other => "unknown panic payload"

inductive CompletionError where
  | failed (error : ErrorChain)
  | timedOut (limit : Duration)
  | dropped
  | panicked (message : String)
  deriving Repr, DecidableEq

namespace CompletionError

/-- The error that a caught panic becomes. -/
def ofPanic (panic : Panic) : CompletionError :=
  .panicked panic.message

def text : CompletionError → String
  | .failed error => error.text
  | .timedOut limit => "completion did not resolve within " ++ limit.text
  | .dropped => "completion was dropped before it resolved"
  | .panicked message => "panicked: " ++ message

/-- The error of a completion that carries over this one: only the text is kept. -/
def carriedOver (error : CompletionError) : CompletionError :=
  .failed ⟨[error.text]⟩

@[simp] theorem text_carriedOver (error : CompletionError) : error.carriedOver.text = error.text :=
  Text.joined_singleton ": " error.text

end CompletionError

/-- How a completion resolves. -/
inductive CompletionResult where
  | success
  | failure (error : CompletionError)
  deriving Repr, DecidableEq

end KeyedJobs
