import KeyedJobs.Duration
import KeyedJobs.Text.Record

/-! # Settings of a coordinator

The settings, their defaults, the ways to change them, and which settings are refused. Numbers are
64-bit words, as they are stored. The default number of workers depends on the machine. Reading and
writing settings as text is done elsewhere.
-/

namespace KeyedJobs

/-- What shutting down does with jobs that wait. -/
inductive ShutdownPolicy where
  /-- Every admitted job still runs. -/
  | drain
  /-- Jobs that have not started are dropped and count as abandoned. -/
  | discard
  deriving Repr, DecidableEq

namespace ShutdownPolicy

def name : ShutdownPolicy → String
  | .drain => "Drain"
  | .discard => "Discard"

/-- The policy's name in settings and on the command line. -/
def keyword : ShutdownPolicy → String
  | .drain => "drain"
  | .discard => "discard"

def ofKeyword? (word : String) : Option ShutdownPolicy :=
  if word = "drain" then some .drain
  else if word = "discard" then some .discard
  else none

theorem ofKeyword?_keyword (policy : ShutdownPolicy) : ofKeyword? policy.keyword = some policy := by
  cases policy <;> simp [ofKeyword?, keyword]

end ShutdownPolicy

structure Config where
  /-- How many jobs may run at the same time. -/
  workers : UInt64
  /-- How long a completion may take before it counts as failed. -/
  completionTimeoutMs : Option UInt64
  /-- The pause before a failed attempt is run again. Zero means none. -/
  retryBackoffMs : UInt64
  shutdownPolicy : ShutdownPolicy
  deriving Repr, DecidableEq

/-- Why settings are refused. -/
inductive ConfigFault where
  | noWorkers
  | zeroTimeout
  deriving Repr, DecidableEq

def ConfigFault.text : ConfigFault → String
  | .noWorkers => "workers must be at least 1"
  | .zeroTimeout => "completion-timeout-ms must be positive when set"

/-- What can be told of the machine that a program runs on. -/
structure Machine where
  /-- How many threads run there at the same time, if that can be found out. -/
  parallelism : Option { threads : UInt64 // threads ≠ 0 }
  deriving DecidableEq

namespace Machine

/-- The number of workers where the machine does not tell how many threads it runs. -/
def fallbackWorkers : UInt64 := 4

/-- As many workers as the machine runs threads. -/
def workers (machine : Machine) : UInt64 :=
  (machine.parallelism.map (·.val)).getD fallbackWorkers

/-- A machine that runs one thread at a time. -/
def single : Machine := ⟨some ⟨1, by decide⟩⟩

theorem workers_ne_zero (machine : Machine) : machine.workers ≠ 0 := by
  obtain ⟨_ | ⟨threads, positive⟩⟩ := machine
  · decide
  · exact positive

end Machine

namespace Config

/-- The settings that hold where nothing else is said. -/
def default (machine : Machine) : Config :=
  ⟨machine.workers, none, 0, .drain⟩

def withWorkers (c : Config) (workers : UInt64) : Config :=
  { c with workers }

def withCompletionTimeout (c : Config) (timeout : Duration) : Config :=
  { c with completionTimeoutMs := some timeout.wholeMillis }

def withRetryBackoff (c : Config) (backoff : Duration) : Config :=
  { c with retryBackoffMs := backoff.wholeMillis }

def withShutdownPolicy (c : Config) (shutdownPolicy : ShutdownPolicy) : Config :=
  { c with shutdownPolicy }

def completionTimeout (c : Config) : Option Duration :=
  c.completionTimeoutMs.map fun ms => .ofMillis ms.toNat

def retryBackoff (c : Config) : Option Duration :=
  if c.retryBackoffMs = 0 then none else some (.ofMillis c.retryBackoffMs.toNat)

/-- Checks the settings, the number of workers first. -/
def validate (c : Config) : Except ConfigFault Unit :=
  if c.workers = 0 then .error .noWorkers
  else if c.completionTimeoutMs = some 0 then .error .zeroTimeout
  else .ok ()

theorem retryBackoff_eq_none_iff {c : Config} : c.retryBackoff = none ↔ c.retryBackoffMs = 0 := by
  unfold retryBackoff
  split <;> simp_all

theorem validate_eq_ok_iff {c : Config} :
    c.validate = .ok () ↔ c.workers ≠ 0 ∧ c.completionTimeoutMs ≠ some 0 := by
  unfold validate
  split
  · simp_all
  · split <;> simp_all

/-- The defaults pass their own check on every machine. -/
theorem validate_default (machine : Machine) : (default machine).validate = .ok () :=
  validate_eq_ok_iff.mpr ⟨machine.workers_ne_zero, nofun⟩

def describe (c : Config) : Text.Record :=
  let timeout := match c.completionTimeoutMs with
    | some ms => s!"Some({ms})"
    | none => "None"
  ⟨"CoordinatorConfig", [("workers", toString c.workers), ("completion_timeout_ms", timeout),
    ("retry_backoff_ms", toString c.retryBackoffMs), ("shutdown_policy", c.shutdownPolicy.name)]⟩

end Config

end KeyedJobs
