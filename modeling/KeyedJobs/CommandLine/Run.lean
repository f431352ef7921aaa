import KeyedJobs.CommandLine.Help
import KeyedJobs.CommandLine.Reader
import KeyedJobs.Config.File
import KeyedJobs.Load.Run

/-! # What a command line comes to

The settings that a command line leads to, and how the program ends: with which exit code, and what
it has printed and logged. Arguments are checked before the file of settings is read, the file's
settings on their own before flags replace some of them, and what results from both at last.
-/

namespace KeyedJobs.CommandLine

/-- Why arguments are refused that were read. -/
inductive ArgumentFault where
  | noKeys
  | noWorkers
  deriving Repr, DecidableEq

def ArgumentFault.text : ArgumentFault → String
  | noKeys => "--keys must be at least 1"
  | noWorkers => "--workers must be at least 1"

/-- Why no settings result from arguments. -/
inductive SettingsError where
  | file (error : ConfigFileError)
  | refused (fault : ConfigFault)
  deriving Repr, DecidableEq

/-- What failed, and the reason for it if there is more to say. -/
def SettingsError.texts : SettingsError → List String
  | file error => error.texts
  | refused fault => [fault.text]

namespace Arguments

def check (a : Arguments) : Except ArgumentFault Unit :=
  if a.profile.keys = 0 then .error .noKeys
  else if a.settings.workers = some 0 then .error .noWorkers
  else .ok ()

/-- The settings before flags replace some of them. -/
def baseConfig (a : Arguments) (machine : Machine) (files : Files) :
    Except ConfigFileError Config :=
  match a.config with
  | some path => Config.ofFile machine files path
  | none => .ok (.default machine)

/-- The settings that hold. -/
def effectiveConfig (a : Arguments) (machine : Machine) (files : Files) :
    Except SettingsError Config :=
  match a.baseConfig machine files with
  | .error error => .error (.file error)
  | .ok base =>
      let config := a.settings.onTopOf base
      match config.validate with
      | .error fault => .error (.refused fault)
      | .ok () => .ok config

end Arguments

/-- What is printed. -/
inductive Printed where
  | nothing
  | text (text : String)
  | report (report : Load.Report)
  deriving Repr, DecidableEq

/-- How the program ends. -/
structure Ending where
  code : Nat
  printed : Printed
  /-- What the program itself has logged. -/
  log : List String
  /-- What it has complained about. -/
  complaint : Option String
  deriving Repr, DecidableEq

/-- The complaint about a failure: what failed, and below it the reason, each line of it indented.
-/
def failureText : List String → String
  | [] => "Error: "
  | [text] => "Error: " ++ text
  | text :: causes =>
      let lines := causes.flatMap (·.splitOn "\n")
      "Error: " ++ text ++ "\n\nCaused by:\n" ++ Text.joined "\n" (lines.map ("    " ++ ·))

namespace Ending

/-- The program refuses its command line. -/
def usage (complaint : String) : Ending :=
  ⟨2, .nothing, [], some complaint⟩

/-- The program fails before it has started a coordinator. -/
def failure (texts : List String) (log : List String) : Ending :=
  ⟨1, .nothing, log, some (failureText texts)⟩

def answer (text : String) : Ending :=
  ⟨0, .text text, [], none⟩

/-- The program has run its load. -/
def finished (report : Load.Report) (log : List String) : Ending :=
  if report.isConsistent then ⟨0, .report report, log, none⟩
  else ⟨1, .report report, log,
    some "Error: per-key ordering was violated or jobs were left unresolved"⟩

end Ending

/-- Runs a load under settings. There is no ending if one of its calls takes more than `fuel`
moves. -/
def runLoad? (config : Config) (profile : Load.Profile) (fuel : Nat) : Option Ending :=
  let started := "Starting jobcoord with " ++ config.describe.inline
  match Coordinator.start config with
  | .error fault => some (.failure [Coordinator.invalidConfigText fault.text] [started])
  | .ok coordinator => do
      let (report, run) ← (Load.Run.begin coordinator).load? profile fuel
      let _ ← run.perform? .waitUntilFinished fuel
      return .finished report [started, "Stopping jobcoord"]

/-- Runs the program on arguments that were read. -/
def Arguments.run? (a : Arguments) (machine : Machine) (files : Files) (fuel : Nat) :
    Option Ending :=
  match a.check with
  | .error fault => some (.usage ("Error: " ++ fault.text))
  | .ok () =>
      match a.effectiveConfig machine files with
      | .error error => some (.failure error.texts [])
      | .ok config => runLoad? config a.profile fuel

/-- Runs the program on a machine. -/
def run? (machine : Machine) (files : Files) (args : List String)
    (fuel : Nat := Coordinator.enoughMoves) : Option Ending :=
  match Invocation.ofArguments args with
  | .refused error => some (.usage ("error: " ++ error.text))
  | .help full => some (.answer (helpText full))
  | .version => some (.answer versionText)
  | .load arguments => arguments.run? machine files fuel

/-- The file that the program reads, if it gets that far. -/
def fileRead? (args : List String) : Option String :=
  match Invocation.ofArguments args with
  | .load arguments => if arguments.check.toBool then arguments.config else none
  | _ => none

end KeyedJobs.CommandLine
