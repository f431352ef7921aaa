import KeyedJobs.CommandLine.Arguments
import KeyedJobs.Text.ControlSequence

/-! # Reading the command line

Arguments are read from left to right. A value that stands behind its flag, and not in the same
argument, is looked at only when the next flag or the end is reached: until then an argument that is
not expected at all is told first.
-/

namespace KeyedJobs.CommandLine

/-- Why a command line is refused. -/
inductive UsageError where
  | unexpected (argument : String)
  | missingValue (flag : Flag)
  | repeated (flag : Flag)
  | unneededValue (flag : Flag) (value : String)
  | invalidValue (flag : Flag) (value : String) (fault : ValueFault)
  deriving Repr, DecidableEq

namespace UsageError

def missingText (flag : Flag) : String :=
  s!"a value is required for '{flag.text}' but none was supplied"

/-- Why a value is refused. A value that is empty is a missing one, unless it should be a number. -/
def invalidText (flag : Flag) (value : String) (fault : ValueFault) : String :=
  let invalid := s!"invalid value '{Text.withoutSequences value}' for '{flag.text}'"
  match fault with
  | .integer fault => s!"{invalid}: {fault.text}"
  | .outside n highest => s!"{invalid}: {n} is not in 0..={highest}"
  | .noPath => missingText flag
  | .noPolicy => if value = "" then missingText flag else invalid

/-- The message. Arguments stand in it without their control sequences. -/
def text : UsageError → String
  | unexpected argument => s!"unexpected argument '{Text.withoutSequences argument}' found"
  | missingValue flag => missingText flag
  | repeated flag => s!"the argument '{flag.text}' cannot be used multiple times"
  | unneededValue flag value =>
      let value := Text.withoutSequences value
      s!"unexpected value '{value}' for '{flag.text}' found; no more were expected"
  | invalidValue flag value fault => invalidText flag value fault

end UsageError

/-- What a command line asks for. -/
inductive Invocation where
  | load (arguments : Arguments)
  /-- Help, in full or in short. -/
  | help (full : Bool)
  | version
  | refused (error : UsageError)
  deriving Repr, DecidableEq

/-- How far a command line has been read. Reading on either gets further or ends with what is asked
for. -/
structure Progress where
  arguments : Arguments := {}
  /-- The flags that were taken. -/
  given : List Flag := []
  /-- A flag that was not taken yet, with its value if that was read. -/
  pending : Option (Flag × Option String) := none

namespace Progress

/-- Takes a flag that may be given once, with its value. -/
def take (p : Progress) (flag : Flag) (value : String) : Except Invocation Progress :=
  if flag ∈ p.given then .error (.refused (.repeated flag))
  else match p.arguments.set value flag with
    | .ok arguments => .ok { p with arguments, given := flag :: p.given }
    | .error fault => .error (.refused (.invalidValue flag value fault))

/-- Takes the flag that was not taken yet. -/
def settle (p : Progress) : Except Invocation Progress :=
  match p.pending with
  | none => .ok p
  | some (flag, none) => .error (.refused (.missingValue flag))
  | some (flag, some value) => { p with pending := none }.take flag value

/-- Takes a flag that has no value. Help and the version are answered at once. -/
def raise (p : Progress) (full : Bool) : Flag → Except Invocation Progress
  | .help => .error (.help full)
  | .version => .error .version
  | flag => p.take flag ""

/-- Reads a flag by its name, with a value if one is attached. -/
def readNamed (p : Progress) (name : String) (attached : Option String) :
    Except Invocation Progress :=
  match Flag.ofName? name with
  | none => .error (.refused (.unexpected ("--" ++ name)))
  | some flag =>
      match flag.placeholder?, attached with
      | some _, some value => do (← p.settle).take flag value
      | some _, none => do return { ← p.settle with pending := some (flag, none) }
      | none, some value => .error (.refused (.unneededValue flag value))
      | none, none => do (← p.settle).raise true flag

/-- Reads a flag by its letter. -/
def readLetter (p : Progress) (letter : Char) : Except Invocation Progress :=
  match Flag.ofLetter? letter with
  | none => .error (.refused (.unexpected (String.ofList ['-', letter])))
  | some flag => do (← p.settle).raise false flag

/-- Reads an argument that is no flag: a value that a flag waits for. -/
def readValue (p : Progress) (value : String) : Except Invocation Progress :=
  match p.pending with
  | some (flag, none) => .ok { p with pending := some (flag, some value) }
  | _ => .error (.refused (.unexpected value))

/-- Reads an argument. -/
def readArgument (p : Progress) (argument : String) : Except Invocation Progress :=
  match argument.toList with
  | '-' :: '-' :: body =>
      let name := String.ofList (body.takeWhile (· ≠ '='))
      match body.dropWhile (· ≠ '=') with
      | [] => p.readNamed name none
      | _ :: value => p.readNamed name (some (String.ofList value))
  | '-' :: letter :: _ => p.readLetter letter
  | _ => p.readValue argument

/-- Reads the arguments that are left. After two dashes alone nothing is expected. -/
def readAll (p : Progress) : List String → Invocation
  | [] =>
      match p.settle with
      | .ok p => .load p.arguments
      | .error invocation => invocation
  | argument :: rest =>
      if argument = "--" then
        match rest with
        | [] => p.readAll []
        | extra :: _ => .refused (.unexpected extra)
      else match p.readArgument argument with
        | .ok p => p.readAll rest
        | .error invocation => invocation

end Progress

/-- Reads a command line. -/
def Invocation.ofArguments (args : List String) : Invocation :=
  ({} : Progress).readAll args

end KeyedJobs.CommandLine
