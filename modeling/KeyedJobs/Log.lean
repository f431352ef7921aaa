import KeyedJobs.Text.Quoted

/-! # Log lines

A line of the log is a level and a message. What is logged where is decided by the modules that log.
-/

namespace KeyedJobs

inductive Level where
  | debug
  | info
  | warn
  | error
  deriving Repr, DecidableEq

/-- The name of the level as a line starts with it. -/
def Level.name : Level → String
  | .debug => "DEBUG"
  | .info => "INFO"
  | .warn => "WARN"
  | .error => "ERROR"

structure LogLine where
  level : Level
  message : String
  deriving Repr, DecidableEq

namespace LogLine

def debug (message : String) : LogLine := ⟨.debug, message⟩

def info (message : String) : LogLine := ⟨.info, message⟩

def warn (message : String) : LogLine := ⟨.warn, message⟩

def error (message : String) : LogLine := ⟨.error, message⟩

/-- The whole line. -/
def text (line : LogLine) : String :=
  line.level.name ++ " " ++ line.message

end LogLine

end KeyedJobs
