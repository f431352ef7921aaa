import KeyedJobs.CommandLine.Run

/-! # The program

Runs a load of simulated jobs as the command line says, and prints a report. Time is simulated too:
only the time that the report names is measured.
-/

namespace KeyedJobs

/-- Why the system could not read a file. -/
def FileFault.ofError : IO.Error → FileFault
  | .noFileOrDirectory _ _ _ => .notFound
  | .inappropriateType _ 21 _ => .isADirectory
  | .inappropriateType _ _ _ => .notADirectory
  | error => .other (toString error)

/-- Reads a file from disk. -/
def readDisk (path : String) : IO (Except FileFault ByteArray) := do
  try
    return .ok (← IO.FS.readBinFile path)
  catch error =>
    return .error (.ofError error)

/-- How many processors a list names that is given by ranges, such as 0-3,8. -/
def countProcessors (ranges : String) : Nat :=
  ((ranges.splitOn ",").map fun range =>
    match (range.splitOn "-").map String.toNat? with
    | [some first, some last] => last + 1 - first
    | [some _] => 1
    | _ => 0).foldl (· + ·) 0

/-- What the status of a process tells of the machine: on which processors it may run. -/
def Machine.ofStatus (status : String) : Machine where
  parallelism := do
    let threads ← (status.splitOn "\n").findSome? fun line =>
      match line.splitOn ":\t" with
      | ["Cpus_allowed_list", ranges] => some (countProcessors ranges).toUInt64
      | _ => none
    if positive : threads ≠ 0 then return ⟨threads, positive⟩ else none

/-- Finds out about the machine. -/
def Machine.ask : IO Machine := do
  try
    return .ofStatus (← IO.FS.readFile "/proc/self/status")
  catch _ =>
    return ⟨none⟩

/-- Prints what the program ends with. -/
def CommandLine.Ending.print (ending : Ending) (elapsedMs : Nat) : IO Unit := do
  for line in ending.log do
    IO.eprintln (LogLine.info line).text
  match ending.printed with
  | .nothing => pure ()
  | .text text => IO.print text
  | .report report => IO.println (report.render elapsedMs)
  if let some complaint := ending.complaint then IO.eprintln complaint

/-- Runs the program on a command line, and hands back its exit code. -/
def CommandLine.execute (args : List String) : IO UInt32 := do
  let begun ← IO.monoMsNow
  let contents ← match fileRead? args with
    | some path => readDisk path
    | none => pure (.error .notFound)
  match run? (← Machine.ask) (fun _ => contents) args with
  | some ending =>
      ending.print ((← IO.monoMsNow) - begun)
      return ending.code.toUInt32
  | none =>
      IO.eprintln "Error: the load does not end"
      return 1

end KeyedJobs

def main (args : List String) : IO UInt32 :=
  KeyedJobs.CommandLine.execute args
