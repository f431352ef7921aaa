import KeyedJobs.CommandLine.Arguments

/-! # Help

The texts that help and the version are answered with. Help in short has two lines for each flag;
help in full has a block for each, and explains the values of a flag if there are only a few.
-/

namespace KeyedJobs.CommandLine

namespace Flag

/-- What the flag is for. -/
def summary? : Flag → Option String
  | config => some "JSON file with the coordinator config. Flags below override it"
  | workers => some "Number of worker slots"
  | completionTimeout => some "Count a write as failed if it has not completed within this time"
  | retryBackoff => some "Delay before a failed attempt is re-run"
  | shutdownPolicy => some "What happens to queued jobs on shutdown"
  | keys => some "Number of distinct entity keys"
  | jobs => some "Number of jobs to enqueue"
  | writesPerJob => some "Simulated writes per job"
  | maxRetries => none
  | failurePercent => some "Chance in percent that an attempt contains a failing write"
  | withCompensator => some "Attach a compensator that reverts jobs whose retries are used up"
  | writeLatency => none
  | help => some "Print help"
  | version => some "Print version"

/-- The value that holds if the flag is not given. -/
def default? : Flag → Option String
  | keys => some (toString ({} : Load.Profile).keys)
  | jobs => some (toString ({} : Load.Profile).jobs)
  | writesPerJob => some (toString ({} : Load.Profile).writesPerJob)
  | maxRetries => some (toString ({} : Load.Profile).maxRetries)
  | failurePercent => some (toString ({} : Load.Profile).failurePercent)
  | writeLatency => some (toString ({} : Load.Profile).writeLatency.wholeMillis)
  | _ => none

/-- The only values that the flag takes, each with what it means. -/
def choices : Flag → List (String × String)
  | shutdownPolicy =>
      [(ShutdownPolicy.drain.keyword, "Default: run every admitted job to its end"),
        (ShutdownPolicy.discard.keyword,
          "Drop jobs that were not started yet, counting them as abandoned")]
  | _ => []

/-- The line that starts what help says about the flag. -/
def heading (flag : Flag) : String :=
  match flag.letter? with
  | some letter => s!"  -{letter}, {flag.text}"
  | none => s!"      {flag.text}"

end Flag

/-- How far explanations of flags are indented. -/
def indent : String := "          "

/-- What help in short says about a flag. -/
def briefly (flag : Flag) : List String :=
  let summary := match flag with
    | .help => ["Print help (see more with '--help')"]
    | flag => flag.summary?.toList
  let standard := flag.default?.toList.map fun value => s!"[default: {value}]"
  let values := match flag.choices with
    | [] => []
    | choices => ["[possible values: " ++ Text.joined ", " (choices.map (·.1)) ++ "]"]
  [flag.heading, indent ++ Text.joined " " (summary ++ standard ++ values)]

/-- What help in full says about the values of a flag. Their meanings stand below each other. -/
def choiceLines (choices : List (String × String)) : List String :=
  let width := (choices.map (·.1.length)).max?.getD 0
  choices.map fun (value, meaning) =>
    let gap := String.ofList (List.replicate (width - value.length + 1) ' ')
    indent ++ "- " ++ value ++ ":" ++ gap ++ meaning

/-- What help in full says about a flag. -/
def fully (flag : Flag) : List String :=
  let summary := match flag with
    | .help => ["Print help (see a summary with '-h')"]
    | flag => flag.summary?.toList
  let standard := match flag.default? with
    | none => []
    | some value =>
        (if summary.isEmpty then [] else [indent]) ++ [indent ++ s!"[default: {value}]"]
  let values := match flag.choices with
    | [] => []
    | choices => ["", indent ++ "Possible values:"] ++ choiceLines choices
  flag.heading :: summary.map (indent ++ ·) ++ standard ++ values

/-- The text of help, in full or in short. -/
def helpText (full : Bool) : String :=
  let about := ["Keyed job coordinator that serializes datastore-mutating work per entity with " ++
    "retry and rollback.", "", "Usage: jobcoord [OPTIONS]", "", "Options:"]
  let flags :=
    if full then Text.joined "\n\n" (Flag.all.map fun flag => Text.joined "\n" (fully flag))
    else Text.joined "\n" (Flag.all.flatMap briefly)
  Text.joined "\n" about ++ "\n" ++ flags ++ "\n"

def versionText : String := "jobcoord 0.1.0\n"

end KeyedJobs.CommandLine
