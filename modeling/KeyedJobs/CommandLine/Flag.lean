/-! # Flags

The flags of the command line: how they are written and what help says about them. A flag that takes
a value has a placeholder for it.
-/

namespace KeyedJobs.CommandLine

inductive Flag where
  | config
  | workers
  | completionTimeout
  | retryBackoff
  | shutdownPolicy
  | keys
  | jobs
  | writesPerJob
  | maxRetries
  | failurePercent
  | withCompensator
  | writeLatency
  | help
  | version
  deriving Repr, DecidableEq

namespace Flag

/-- All flags, in the order in which help lists them. -/
def all : List Flag :=
  [config, workers, completionTimeout, retryBackoff, shutdownPolicy, keys, jobs, writesPerJob,
    maxRetries, failurePercent, withCompensator, writeLatency, help, version]

/-- The name, which is written after two dashes. -/
def name : Flag → String
  | config => "config"
  | workers => "workers"
  | completionTimeout => "completion-timeout-ms"
  | retryBackoff => "retry-backoff-ms"
  | shutdownPolicy => "shutdown-policy"
  | keys => "keys"
  | jobs => "jobs"
  | writesPerJob => "writes-per-job"
  | maxRetries => "max-retries"
  | failurePercent => "failure-percent"
  | withCompensator => "with-compensator"
  | writeLatency => "write-latency-ms"
  | help => "help"
  | version => "version"

/-- The letter that may be written after one dash instead of the name. -/
def letter? : Flag → Option Char
  | help => some 'h'
  | version => some 'V'
  | _ => none

/-- What stands for the value in messages, if the flag takes one. -/
def placeholder? : Flag → Option String
  | config => some "PATH"
  | workers => some "WORKERS"
  | completionTimeout | retryBackoff | writeLatency => some "MS"
  | shutdownPolicy => some "SHUTDOWN_POLICY"
  | keys => some "KEYS"
  | jobs => some "JOBS"
  | writesPerJob => some "WRITES_PER_JOB"
  | maxRetries => some "MAX_RETRIES"
  | failurePercent => some "FAILURE_PERCENT"
  | withCompensator | help | version => none

def ofName? (name : String) : Option Flag :=
  all.find? (·.name = name)

def ofLetter? (letter : Char) : Option Flag :=
  all.find? (·.letter? = some letter)

theorem ofName?_name (flag : Flag) : ofName? flag.name = some flag := by
  cases flag <;> decide +kernel

/-- The flag as messages write it. -/
def text (flag : Flag) : String :=
  match flag.placeholder? with
  | some placeholder => s!"--{flag.name} <{placeholder}>"
  | none => s!"--{flag.name}"

end Flag

end KeyedJobs.CommandLine
