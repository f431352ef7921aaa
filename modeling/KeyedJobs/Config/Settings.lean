import KeyedJobs.Config.Basic

/-! # Settings that are given

Some of the settings, as a text or a command line gives them. Those that are not given are taken
from elsewhere.
-/

namespace KeyedJobs

/-- The settings, by name. -/
inductive Setting where
  | workers
  | completionTimeout
  | retryBackoff
  | shutdownPolicy
  deriving Repr, DecidableEq

namespace Setting

/-- All settings, in the order in which they are listed. -/
def all : List Setting :=
  [workers, completionTimeout, retryBackoff, shutdownPolicy]

def key : Setting → String
  | workers => "workers"
  | completionTimeout => "completion-timeout-ms"
  | retryBackoff => "retry-backoff-ms"
  | shutdownPolicy => "shutdown-policy"

def ofKey? (key : String) : Option Setting :=
  all.find? (·.key = key)

theorem ofKey?_key (setting : Setting) : ofKey? setting.key = some setting := by
  cases setting <;> simp [ofKey?, all, key]

end Setting

structure Settings where
  workers : Option UInt64 := none
  /-- A time limit that is given may be given as none. -/
  completionTimeoutMs : Option (Option UInt64) := none
  retryBackoffMs : Option UInt64 := none
  shutdownPolicy : Option ShutdownPolicy := none
  deriving Repr, DecidableEq

namespace Settings

def gives (settings : Settings) : Setting → Bool
  | .workers => settings.workers.isSome
  | .completionTimeout => settings.completionTimeoutMs.isSome
  | .retryBackoff => settings.retryBackoffMs.isSome
  | .shutdownPolicy => settings.shutdownPolicy.isSome

/-- The given settings, and the rest from a full set of settings. -/
def onTopOf (settings : Settings) (base : Config) : Config where
  workers := settings.workers.getD base.workers
  completionTimeoutMs := settings.completionTimeoutMs.getD base.completionTimeoutMs
  retryBackoffMs := settings.retryBackoffMs.getD base.retryBackoffMs
  shutdownPolicy := settings.shutdownPolicy.getD base.shutdownPolicy

/-- All settings of a full set. -/
def ofConfig (config : Config) : Settings :=
  ⟨some config.workers, some config.completionTimeoutMs, some config.retryBackoffMs,
    some config.shutdownPolicy⟩

theorem onTopOf_ofConfig (config base : Config) : (ofConfig config).onTopOf base = config := rfl

end Settings

end KeyedJobs
