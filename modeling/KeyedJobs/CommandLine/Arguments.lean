import KeyedJobs.CommandLine.Flag
import KeyedJobs.CommandLine.Integer
import KeyedJobs.Config.Settings
import KeyedJobs.Load.Profile

/-! # Arguments

What the command line says, once it is read: a file of settings, settings that go before those of
the file, and the load to run.
-/

namespace KeyedJobs.CommandLine

structure Arguments where
  /-- The path of the file of settings. -/
  config : Option String := none
  settings : Settings := {}
  profile : Load.Profile := {}
  deriving Repr, DecidableEq

/-- Why the value of a flag is refused. -/
inductive ValueFault where
  | integer (fault : IntegerFault)
  /-- The number is not between zero and the highest. -/
  | outside (value : Int) (highest : Nat)
  | noPath
  | noPolicy
  deriving Repr, DecidableEq

/-- Reads a number of 64 bits without a sign. -/
def readWord (value : String) : Except ValueFault Nat :=
  match Limits.unsigned.read value with
  | .ok n => .ok n.toNat
  | .error fault => .error (.integer fault)

/-- Reads a number that is not above the highest. -/
def readUpTo (highest : Nat) (value : String) : Except ValueFault Nat :=
  match Limits.signed.read value with
  | .ok n => if 0 ≤ n ∧ n ≤ highest then .ok n.toNat else .error (.outside n highest)
  | .error fault => .error (.integer fault)

def readPath (value : String) : Except ValueFault String :=
  if value = "" then .error .noPath else .ok value

def readPolicy (value : String) : Except ValueFault ShutdownPolicy :=
  match ShutdownPolicy.ofKeyword? value with
  | some policy => .ok policy
  | none => .error .noPolicy

namespace Arguments

def withSettings (a : Arguments) (change : Settings → Settings) : Arguments :=
  { a with settings := change a.settings }

def withProfile (a : Arguments) (change : Load.Profile → Load.Profile) : Arguments :=
  { a with profile := change a.profile }

/-- Takes the value of a flag. Flags without a value change nothing. -/
def set (a : Arguments) (value : String) : Flag → Except ValueFault Arguments
  | .config => do
      let path ← readPath value
      return { a with config := some path }
  | .workers => do
      let n ← readWord value
      return a.withSettings ({ · with workers := some n.toUInt64 })
  | .completionTimeout => do
      let ms ← readWord value
      return a.withSettings ({ · with completionTimeoutMs := some (some ms.toUInt64) })
  | .retryBackoff => do
      let ms ← readWord value
      return a.withSettings ({ · with retryBackoffMs := some ms.toUInt64 })
  | .shutdownPolicy => do
      let policy ← readPolicy value
      return a.withSettings ({ · with shutdownPolicy := some policy })
  | .keys => do
      let n ← readWord value
      return a.withProfile ({ · with keys := n })
  | .jobs => do
      let n ← readWord value
      return a.withProfile ({ · with jobs := n })
  | .writesPerJob => do
      let n ← readWord value
      return a.withProfile ({ · with writesPerJob := n })
  | .maxRetries => do
      let n ← readUpTo 4294967295 value
      return a.withProfile ({ · with maxRetries := n })
  | .failurePercent => do
      let n ← readUpTo 100 value
      return a.withProfile ({ · with failurePercent := n })
  | .writeLatency => do
      let ms ← readWord value
      return a.withProfile ({ · with writeLatency := .ofMillis ms })
  | .withCompensator => return a.withProfile ({ · with withCompensator := true })
  | .help | .version => .ok a

end Arguments

end KeyedJobs.CommandLine
