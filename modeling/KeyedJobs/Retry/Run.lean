import KeyedJobs.Retry.Drive

/-! # Driving one job alone

Runs a drive with nothing else going on: it steps whenever it can, and otherwise time passes up to
the instant at which it can. Jobs under a coordinator are not run this way, but step by step.
-/

namespace KeyedJobs

/-- A drive on its own, with everything it has logged and called so far. -/
structure SoloRun where
  now : Instant
  completions : Completions
  drive : Drive
  log : Array LogLine
  made : Array JobCall

namespace SoloRun

def begin (now : Instant) (completions : Completions) (job : Job) : SoloRun :=
  ⟨now, completions, Drive.begin job, #[], #[]⟩

/-- One step of the drive. -/
def step (policy : RetryPolicy) : SoloRun → SoloRun
  | ⟨now, completions, drive, log, made⟩ =>
      let taken := drive.step policy now completions
      ⟨now, taken.completions, taken.drive, log ++ taken.log, made ++ taken.made⟩

/-- The next thing to happen: a step, or time passes. Nothing happens to a drive that has ended, or
that waits for what will not come by itself. -/
def advance? (policy : RetryPolicy) (run : SoloRun) : Option SoloRun :=
  if run.drive.canStep run.now run.completions then some (run.step policy)
  else (run.drive.wakeAt? run.completions).bind fun due =>
    if run.now < due then some { run with now := due } else none

/-- Goes on until nothing happens any more, for at most `fuel` happenings. -/
def finish (policy : RetryPolicy) (run : SoloRun) : (fuel : Nat) → SoloRun
  | 0 => run
  | fuel + 1 =>
      match run.advance? policy with
      | some next => next.finish policy fuel
      | none => run

/-- What happens next is a step, or time passes. -/
theorem advance?_cases {policy : RetryPolicy} {run next : SoloRun}
    (advanced : run.advance? policy = some next) :
    run.drive.canStep run.now run.completions = true ∧ next = run.step policy ∨
      ∃ now, next = { run with now } := by
  unfold advance? at advanced
  split at advanced
  · rename_i possible
    exact .inl ⟨possible, (Option.some.inj advanced).symm⟩
  · obtain ⟨due, -, later⟩ := Option.bind_eq_some_iff.mp advanced
    split at later
    · exact .inr ⟨due, (Option.some.inj later).symm⟩
    · cases later

/-- What every possible step and the passing of time keep holds however far the drive goes on. -/
theorem finish_induction {motive : SoloRun → Prop} {policy : RetryPolicy} {run : SoloRun}
    (begun : motive run)
    (step : ∀ run, motive run → run.drive.canStep run.now run.completions = true →
      motive (run.step policy))
    (pass : ∀ run now, motive run → motive { run with now }) (fuel : Nat) :
    motive (run.finish policy fuel) := by
  induction fuel generalizing run with
  | zero => exact begun
  | succ fuel ih =>
      rw [finish]
      cases advanced : run.advance? policy with
      | none => exact begun
      | some next =>
          obtain ⟨possible, rfl⟩ | ⟨now, rfl⟩ := advance?_cases advanced
          · exact ih (step run begun possible)
          · exact ih (pass run now begun)

/-- How the run ends for its caller, once the drive has ended: dropping the job may panic. -/
def result? (run : SoloRun) : Option (Except Panic Resolution) :=
  run.drive.resolution?.map fun resolution =>
    match run.drive.job.dropPanic with
    | some panic => .error panic
    | none => .ok resolution

end SoloRun

/-- Drives a fresh job to its end, for at most `fuel` happenings. -/
def RetryPolicy.drive (policy : RetryPolicy) (job : Job) (fuel : Nat) : SoloRun :=
  (SoloRun.begin Instant.start .empty job).finish policy fuel

end KeyedJobs
