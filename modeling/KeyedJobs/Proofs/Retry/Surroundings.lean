import KeyedJobs.Proofs.Retry.Sharing
import KeyedJobs.Retry.Run

/-! # A drive in its surroundings

One drive that takes its steps whenever it can, while anything at all may happen to the clock and to
the completions in between. Where the drive stands tells which calls it has made, what it has logged
and what is left of its job, and each step leads from one such place to the next.
-/

namespace KeyedJobs

/-- What happens to the clock and to the completions before each turn of a drive. -/
abbrev Surroundings := Nat → Instant × Completions → Instant × Completions

namespace SoloRun

/-- The run as its turn with this number finds it. -/
def met (around : Surroundings) (turn : Nat) (run : SoloRun) : SoloRun :=
  let (now, completions) := around turn (run.now, run.completions)
  { run with now, completions }

/-- A step, if one is possible. -/
def tick (policy : RetryPolicy) (run : SoloRun) : SoloRun :=
  if run.drive.canStep run.now run.completions then run.step policy else run

/-- The run of the job after so many turns. -/
def within (policy : RetryPolicy) (around : Surroundings) (job : Job) : Nat → SoloRun
  | 0 => begin .start .empty job
  | turn + 1 => ((within policy around job turn).met around turn).tick policy

end SoloRun

namespace SoloRun

variable {policy : RetryPolicy} {around around' : Surroundings} {job : Job} {run : SoloRun}
  {turn : Nat}

theorem within_congr (same : ∀ before < turn, around before = around' before) :
    within policy around job turn = within policy around' job turn := by
  induction turn with
  | zero => rfl
  | succ turn ih =>
      have earlier := ih fun before less => same before (Nat.lt_succ_of_lt less)
      rw [within, within, earlier, met, met, same turn (Nat.lt_succ_self turn)]

theorem exists_within_step (policy : RetryPolicy) (around : Surroundings) (job : Job) (turn : Nat)
    (now : Instant) (possible : (within policy around job turn).drive.canStep now
      (within policy around job turn).completions = true) :
    ∃ around', within policy around' job (turn + 1) =
      step policy { within policy around job turn with now } := by
  let around' : Surroundings := fun n => if n = turn then fun (_, cs) => (now, cs) else around n
  have before : within policy around' job turn = within policy around job turn :=
    within_congr fun n less => if_neg (Nat.ne_of_lt less)
  have here : around' turn = fun (_, cs) => (now, cs) := if_pos rfl
  refine ⟨around', ?_⟩
  rw [within, before, met, here, tick, if_pos possible]

/-- A job that is driven alone goes through turns between which nothing happens but that time
passes. -/
theorem exists_within_drive (policy : RetryPolicy) (job : Job) (fuel : Nat) :
    ∃ around turn now, policy.drive job fuel = { within policy around job turn with now } := by
  refine finish_induction
    (motive := fun run => ∃ around turn now, run = { within policy around job turn with now })
    ⟨fun _ => id, 0, .start, rfl⟩ ?_ ?_ fuel
  · rintro run ⟨around, turn, now, rfl⟩ possible
    obtain ⟨around', after⟩ := exists_within_step policy around job turn now possible
    refine ⟨around', turn + 1, now, ?_⟩
    rw [after]
    rfl
  · rintro run now ⟨around, turn, before, rfl⟩
    exact ⟨around, turn, now, rfl⟩

end SoloRun

/-- Whether the drive waits, for completions or for a pause to pass. -/
def Phase.waits : Phase → Bool
  | .collecting _ | .revertCollecting _ | .pausing _ => true
  | _ => false

/-- Whether the compensator has been called and the drive not ended. -/
def Phase.reverts : Phase → Bool
  | .revertLaunched _ | .revertCollecting _ | .reverted => true
  | _ => false

/-- Whether the next step of the drive leads to another scene. -/
def Phase.leaves : Phase → Bool
  | .ready | .judging _ | .reverting _ | .reverted => true
  | _ => false

/-- The lines that tell of changes of state are the ones for debugging. -/
def transitionsOf (log : List LogLine) : List LogLine :=
  log.filter (·.level = .debug)

namespace Job

/-- The line for a change of state of the job. -/
def transition (job : Job) (before after : JobState) : LogLine :=
  .debug s!"Job {job.title}: {before.name} -> {after.name}"

/-- The changes of state up to the attempt with this number, which is under way. -/
def tries (job : Job) : Nat → List LogLine
  | 0 => []
  | 1 => [job.transition .pending .running]
  | number + 1 => job.tries number ++
      [job.transition .running .retrying, job.transition .retrying .running]

end Job

/-- The calls of so many attempts. -/
def attempts (count : Nat) : List JobCall :=
  (List.range count).map (.attempt <| · + 1)

/-- What an attempt comes to whose call does this. A call that hands back completions comes to what
they come to, and another one counts as a single completion that has failed. -/
inductive Call.Reports (call : Call) : Outcome → Prop where
  | writes {started : List Write} {slots : List Slot} (cs : Completions)
      (returned : call = .writes started)
      (handed : slots.map (·.completion) = (cs.startEach started).1)
      (complete : ∀ slot ∈ slots, slot.result.isSome = true) :
      Reports call ⟨slots.length, slots.filterMap Slot.failure?⟩
  | failed {error : CompletionError} (id : CompletionId) (failed : call.error? = some error) :
      Reports call ⟨1, [⟨id, error⟩]⟩

/-- How far an attempt has come whose call does this. -/
inductive Call.Works (call : Call) : Phase → Prop where
  | launched {started : List Write} (cs : Completions) (returned : call = .writes started) :
      Works call (.launched (cs.startEach started).1)
  | collecting {started : List Write} {waiting : Aggregation} (cs : Completions)
      (returned : call = .writes started)
      (handed : waiting.slots.map (·.completion) = (cs.startEach started).1) :
      Works call (.collecting waiting)
  | judging {outcome : Outcome} (reports : call.Reports outcome) : Works call (.judging outcome)

/-- Where a drive stands in the course of its job. -/
inductive Scene where
  | start
  /-- The attempt with this number is under way. -/
  | attempt (number : Nat)
  /-- It has failed and another one is to follow. -/
  | retry (number : Nat)
  /-- The attempts are used up and the compensator is to be called for the outcome of the last one. -/
  | revert (outcome : Outcome)
  /-- The compensator has been called and has seen this. -/
  | undo (outcome : Outcome) (inspections : List Inspection)
  | undone (outcome : Outcome) (inspections : List Inspection)
  | success (number : Nat)
  | failure

namespace Scene

/-- The calls of the action that have been made. -/
def calls (job : Job) : Scene → Nat
  | .start => 0
  | .attempt number | .retry number | .success number => number
  | .revert _ | .undo _ _ | .undone _ _ | .failure => job.maxRetries + 1

/-- The compensator, as long as it has not been called. -/
def compensator (job : Job) : Scene → Option Compensator
  | .undo _ _ | .undone _ _ => none
  | _ => job.compensator

def state : Scene → JobState
  | .start => .pending
  | .attempt _ => .running
  | .retry _ => .retrying
  | .revert _ | .undo _ _ => .compensating
  | .undone _ _ | .failure => .abandoned
  | .success _ => .succeeded

def made (job : Job) : Scene → List JobCall
  | .undo outcome inspections | .undone outcome inspections =>
      attempts (job.maxRetries + 1) ++ [.compensate outcome.failedCompletions inspections]
  | scene => attempts (scene.calls job)

/-- What the compensator says when it is called for the outcome. -/
def remarks (job : Job) (outcome : Outcome) : List LogLine :=
  transitionsOf <| (job.compensator.map (·.remark outcome.failures.length)).getD []

/-- The changes of state that have been logged. -/
def transitions (job : Job) : Scene → List LogLine
  | .start => []
  | .attempt number => job.tries number
  | .retry number => job.tries number ++ [job.transition .running .retrying]
  | .success number => job.tries number ++ [job.transition .running .succeeded]
  | .failure => job.tries (job.maxRetries + 1) ++ [job.transition .running .abandoned]
  | .revert _ => job.tries (job.maxRetries + 1) ++ [job.transition .running .compensating]
  | .undo outcome _ => job.tries (job.maxRetries + 1) ++
      [job.transition .running .compensating] ++ remarks job outcome
  | .undone outcome _ => job.tries (job.maxRetries + 1) ++
      [job.transition .running .compensating] ++ remarks job outcome ++
      [job.transition .compensating .abandoned]

/-- What the drive is about in this scene. -/
inductive Stands (job : Job) : Scene → Phase → Prop where
  | start : Stands job .start .ready
  | attempt {number : Nat} {phase : Phase} (works : (job.action (number + 1)).Works phase)
      (left : min number maxAttempts ≤ job.maxRetries) : Stands job (.attempt (number + 1)) phase
  | retry {number : Nat} (left : min (number + 1) maxAttempts ≤ job.maxRetries) :
      Stands job (.retry (number + 1)) .ready
  | pause {number : Nat} (left : min (number + 1) maxAttempts ≤ job.maxRetries) (due : Instant) :
      Stands job (.retry (number + 1)) (.pausing due)
  | revert (outcome : Outcome) (present : job.hasCompensator = true)
      (limited : job.maxRetries < maxAttempts) : Stands job (.revert outcome) (.reverting outcome)
  | undo (outcome : Outcome) (inspections : List Inspection) {phase : Phase}
      (reverts : phase.reverts = true) (limited : job.maxRetries < maxAttempts) :
      Stands job (.undo outcome inspections) phase
  | undone (outcome : Outcome) (inspections : List Inspection)
      (limited : job.maxRetries < maxAttempts) :
      Stands job (.undone outcome inspections)
        (.ended ⟨job.key, .abandoned, min (job.maxRetries + 1) maxAttempts, true⟩)
  | success (number : Nat) :
      Stands job (.success number) (.ended ⟨job.key, .succeeded, min number maxAttempts, false⟩)
  | failure (limited : job.maxRetries < maxAttempts) :
      Stands job .failure
        (.ended ⟨job.key, .abandoned, min (job.maxRetries + 1) maxAttempts, false⟩)

/-- How it goes on from a scene in which the drive is about this. -/
inductive Leads (job : Job) : Scene → Phase → Scene → Prop where
  | begin : Leads job .start .ready (.attempt 1)
  | again (number : Nat) : Leads job (.retry number) .ready (.attempt (number + 1))
  | succeed {outcome : Outcome} (number : Nat) (success : outcome.isSuccess = true) :
      Leads job (.attempt number) (.judging outcome) (.success number)
  | retry {outcome : Outcome} {number : Nat} (failure : outcome.isSuccess = false)
      (left : min number maxAttempts ≤ job.maxRetries) :
      Leads job (.attempt number) (.judging outcome) (.retry number)
  | revert {outcome : Outcome} (failure : outcome.isSuccess = false)
      (present : job.hasCompensator = true) (limited : job.maxRetries < maxAttempts) :
      Leads job (.attempt (job.maxRetries + 1)) (.judging outcome) (.revert outcome)
  | fail {outcome : Outcome} (failure : outcome.isSuccess = false)
      (absent : job.hasCompensator = false) (limited : job.maxRetries < maxAttempts) :
      Leads job (.attempt (job.maxRetries + 1)) (.judging outcome) .failure
  | call (outcome : Outcome) (inspections : List Inspection) :
      Leads job (.revert outcome) (.reverting outcome) (.undo outcome inspections)
  | close (outcome : Outcome) (inspections : List Inspection) :
      Leads job (.undo outcome inspections) .reverted (.undone outcome inspections)

/-- What a step does that begins and ends in these phases: it stays in the scene until it waits or is
about to leave it, or it leads on. -/
inductive Follows (job : Job) (scene : Scene) (before after : Phase) : Scene → Prop where
  | stays (still : before.leaves = false) (settled : (after.waits || after.leaves) = true) :
      Follows job scene before after scene
  | leads {scene' : Scene} (leads : scene.Leads job before scene') :
      Follows job scene before after scene'

theorem follows_of_leads {job : Job} {scene : Scene} {before after : Phase} {reached : Scene → Prop}
    (led : ∃ scene', reached scene' ∧ scene.Leads job before scene') :
    ∃ scene', reached scene' ∧ scene.Follows job before after scene' := by
  obtain ⟨scene', there, leads⟩ := led
  exact ⟨scene', there, .leads leads⟩

/-- The run is in this scene. -/
structure Holds (job : Job) (scene : Scene) (run : SoloRun) : Prop where
  calls : run.drive.calls = scene.calls job
  ofJob : run.drive.job = { job with
    attemptCount := min (scene.calls job) maxAttempts, compensator := scene.compensator job }
  state : run.drive.state = scene.state
  transitions : transitionsOf run.log.toList = scene.transitions job
  made : run.made.toList = scene.made job
  stands : scene.Stands job run.drive.phase

end Scene

theorem transitionsOf_append (log more : List LogLine) :
    transitionsOf (log ++ more) = transitionsOf log ++ transitionsOf more :=
  List.filter_append ..

variable {policy : RetryPolicy} {now : Instant} {cs cs' : Completions} {d d' : Drive} {job : Job}
  {run : SoloRun} {scene scene' : Scene} {made : List JobCall} {lines : List LogLine}

/-- Whether the next step of the drive changes its state. -/
def Phase.turns : Phase → Bool
  | .ready | .judging _ | .reverted => true
  | _ => false

/-- What the compensator says about the outcome that it is to revert. -/
def Drive.remarks (d : Drive) : List LogLine :=
  match d.phase with
  | .reverting outcome => Scene.remarks d.job outcome
  | _ => []

theorem Drive.transitionsOf_step (d : Drive) :
    transitionsOf (d.step policy now cs).log =
      (if d.phase.turns then [d.transitionLine (d.step policy now cs).drive.state] else []) ++
        d.remarks := by
  unfold step Phase.turns Drive.remarks
  cases phase : d.phase with
  | ready =>
      simp only [attempt]
      split <;> rfl
  | launched writes | collecting waiting =>
      simp only [collect]
      rfl
  | judging outcome =>
      simp only [judge]
      split <;> rfl
  | pausing due | ended resolution => rfl
  | reverting outcome =>
      simp only [revert, Scene.remarks]
      cases d.job.compensator with
      | none => rfl
      | some compensator =>
          have same : outcome.failedCompletions.length = outcome.failures.length :=
            List.length_map ..
          dsimp only
          split <;> simp [transitionsOf, LogLine.error, same]
  | revertLaunched writes | revertCollecting waiting =>
      simp only [collectRevert]
      split
      · simp only [closeRevert]
        split <;> rfl
      · rfl
  | reverted => rfl

theorem attempts_succ (count : Nat) :
    attempts (count + 1) = attempts count ++ [.attempt (count + 1)] := by
  simp [attempts, List.range_succ]

theorem nextAttempt_min (number : Nat) :
    nextAttempt (min number maxAttempts) = min (number + 1) maxAttempts := by
  unfold nextAttempt
  omega

/-- Whether an attempt is under way. -/
def Phase.works : Phase → Bool
  | .launched _ | .collecting _ | .judging _ => true
  | _ => false

theorem Drive.works_of_collects {waiting : Aggregation}
    (waits : d.collects policy now = some waiting) :
    d.phase.works = true ∧ d.phase.leaves = false := by
  unfold Drive.collects at waits
  cases phase : d.phase <;> simp [phase, Phase.works, Phase.leaves] at waits ⊢

theorem Drive.reverts_of_revertCollects {waiting : Aggregation}
    (waits : d.revertCollects policy now = some waiting) :
    d.phase.reverts = true ∧ d.phase.leaves = false := by
  unfold Drive.revertCollects at waits
  cases phase : d.phase <;> simp [phase, Phase.reverts, Phase.leaves] at waits ⊢

theorem Drive.silent_of_waits (d : Drive) (line : LogLine)
    (waits : (∃ waiting, d.collects policy now = some waiting) ∨
      ∃ waiting, d.revertCollects policy now = some waiting) :
    (if d.phase.turns then [line] else []) ++ d.remarks = [] := by
  unfold Drive.collects Drive.revertCollects at waits
  unfold Drive.remarks
  cases phase : d.phase <;> simp [phase, Phase.turns] at waits ⊢

theorem Call.Works.poll {call : Call} (works : call.Works d.phase)
    {waiting waiting' : Aggregation} (waits : d.collects policy now = some waiting)
    (polled : waiting.poll now cs = (waiting', cs')) : call.Works (.collecting waiting') := by
  obtain ⟨rfl, -⟩ := Prod.mk.inj polled
  unfold Drive.collects at waits
  generalize d.phase = phase at works waits
  cases works with
  | launched cs returned =>
      obtain rfl := Option.some.inj waits
      refine .collecting cs returned ?_
      rw [Aggregation.completions_pollSlots, Drive.completions_begin]
  | collecting cs returned handed =>
      obtain rfl := Option.some.inj waits
      refine .collecting cs returned ?_
      rw [Aggregation.completions_pollSlots, handed]
  | judging => cases waits

theorem Call.Works.gather {call : Call} {waiting : Aggregation}
    (works : call.Works (.collecting waiting)) (complete : waiting.isComplete = true) :
    call.Works (.judging waiting.outcome) := by
  cases works with
  | collecting cs returned handed =>
      refine .judging (.writes cs returned handed ?_)
      simpa [Aggregation.isComplete] using complete

namespace Scene

theorem Holds.transitionLine (holds : scene.Holds job run) (next : JobState) :
    run.drive.transitionLine next = job.transition scene.state next := by
  simp only [Drive.transitionLine, Job.transition, Job.title, holds.ofJob, holds.state]

/-- A step leads from scene to scene if what it does to the drive, what it logs and what it calls
is what the scenes differ in. -/
theorem Holds.move (holds : scene.Holds job run) (calls : d'.calls = scene'.calls job)
    (ofJob : d'.job = { job with
      attemptCount := min (scene'.calls job) maxAttempts, compensator := scene'.compensator job })
    (state : d'.state = scene'.state)
    (transitions : scene.transitions job ++ transitionsOf lines = scene'.transitions job)
    (called : scene.made job ++ made = scene'.made job)
    (stands : scene'.Stands job d'.phase) :
    scene'.Holds job ⟨now, cs, d', run.log ++ lines, run.made ++ made⟩ := by
  refine ⟨calls, ofJob, state, ?_, ?_, stands⟩
  · rw [Array.toList_appendList, transitionsOf_append, holds.transitions, transitions]
  · rw [Array.toList_appendList, holds.made, called]

theorem Stands.ready (stands : scene.Stands job .ready) :
    ∃ number, scene.calls job = number ∧ scene.compensator job = job.compensator ∧
      scene.transitions job ++ [job.transition scene.state .running] = job.tries (number + 1) ∧
      scene.made job = attempts number ∧ min number maxAttempts ≤ job.maxRetries ∧
      scene.Leads job .ready (.attempt (number + 1)) := by
  generalize stood : Phase.ready = phase at stands
  cases stands with
  | start => exact ⟨0, rfl, rfl, rfl, rfl, Nat.zero_le _, .begin⟩
  | @retry number left =>
      refine ⟨number + 1, rfl, rfl, ?_, rfl, left, .again _⟩
      simp [transitions, state, Job.tries]
  | attempt works =>
      subst stood
      cases works
  | undo _ _ reverts =>
      subst stood
      cases reverts
  | _ => cases stood

theorem Stands.works {phase : Phase} (stands : scene.Stands job phase)
    (busy : phase.works = true) :
    ∃ number, scene = .attempt (number + 1) ∧ (job.action (number + 1)).Works phase ∧
      min number maxAttempts ≤ job.maxRetries := by
  cases stands with
  | @attempt number _ works left => exact ⟨number, rfl, works, left⟩
  | undo _ _ reverts => cases phase <;> simp_all [Phase.reverts, Phase.works]
  | _ => cases busy

theorem Stands.undoes {phase : Phase} (stands : scene.Stands job phase)
    (reverts : phase.reverts = true) :
    ∃ outcome inspections, scene = .undo outcome inspections ∧ job.maxRetries < maxAttempts := by
  cases stands with
  | undo outcome inspections _ limited => exact ⟨outcome, inspections, rfl, limited⟩
  | attempt works => cases works <;> cases reverts
  | _ => cases reverts

theorem Holds.stay {phase : Phase} (holds : scene.Holds job run)
    (silent : transitionsOf lines = []) (stands : scene.Stands job phase) :
    scene.Holds job ⟨now, cs', { run.drive with phase }, run.log ++ lines,
      run.made ++ ([] : List JobCall)⟩ :=
  holds.move holds.calls holds.ofJob holds.state (by rw [silent, List.append_nil])
    (List.append_nil _) stands

theorem Holds.launch {phase : Phase} (holds : scene.Holds job run)
    (ready : run.drive.phase = .ready)
    (works : Call.Works (run.drive.job.action (run.drive.calls + 1)) phase)
    (said : transitionsOf lines = [run.drive.transitionLine .running]) :
    ∃ scene', scene'.Holds job ⟨now, cs', { run.drive.counted with phase }, run.log ++ lines,
        run.made ++ [JobCall.attempt (run.drive.calls + 1)]⟩ ∧ scene.Leads job .ready scene' := by
  obtain ⟨number, same, compensator, logged, called, left, leads⟩ := (ready ▸ holds.stands).ready
  have calls : run.drive.calls = number := holds.calls.trans same
  rw [calls, holds.ofJob] at works
  rw [holds.transitionLine] at said
  refine ⟨_, holds.move ?_ ?_ rfl ?_ ?_ (.attempt works left), leads⟩
  · exact congrArg (· + 1) calls
  · simp only [Drive.counted, holds.ofJob, same, compensator, nextAttempt_min]
    rfl
  · rw [said]
    exact logged
  · rw [called, calls]
    exact (attempts_succ number).symm

theorem Holds.call {phase : Phase} {outcome : Outcome} {inspections : List Inspection}
    (holds : scene.Holds job run) (reverting : run.drive.phase = .reverting outcome)
    (reverts : phase.reverts = true)
    (said : transitionsOf lines = remarks run.drive.job outcome) :
    ∃ scene', scene'.Holds job ⟨now, cs', { run.drive.spent with phase }, run.log ++ lines,
        run.made ++ [JobCall.compensate outcome.failedCompletions inspections]⟩ ∧
      scene.Leads job (.reverting outcome) scene' := by
  have before := reverting ▸ holds.stands
  cases before with
  | attempt works => cases works
  | undo _ _ reverts => cases reverts
  | revert _ _ limited =>
      have same : remarks run.drive.job outcome = remarks job outcome := by
        rw [holds.ofJob]
        rfl
      refine ⟨.undo outcome inspections, holds.move holds.calls ?_ holds.state ?_ rfl
          (.undo _ _ reverts limited),
        .call outcome inspections⟩
      · simp only [Drive.spent, holds.ofJob]
        rfl
      · rw [said, same]
        rfl

section

variable {outcome : Outcome} {phase : Phase}

theorem Holds.succeed (holds : scene.Holds job run) (judging : run.drive.phase = .judging outcome)
    (success : outcome.isSuccess = true)
    (said : transitionsOf lines = [run.drive.transitionLine .succeeded]) :
    ∃ scene', scene'.Holds job ⟨now, cs', run.drive.finish .succeeded false, run.log ++ lines,
        run.made ++ ([] : List JobCall)⟩ ∧ scene.Leads job (.judging outcome) scene' := by
  obtain ⟨number, rfl, -, -⟩ := holds.stands.works (by rw [judging]; rfl)
  rw [holds.transitionLine] at said
  refine ⟨.success (number + 1), holds.move holds.calls holds.ofJob rfl ?_ (List.append_nil _) ?_,
    .succeed _ success⟩
  · rw [said]
    rfl
  · simp only [Drive.finish, holds.ofJob]
    exact .success _

theorem Holds.retry (holds : scene.Holds job run) (judging : run.drive.phase = .judging outcome)
    (failure : outcome.isSuccess = false)
    (left : run.drive.job.attemptCount ≤ run.drive.job.maxRetries)
    (next : phase = match policy.backoff with
      | some pause => .pausing (now.after pause)
      | none => .ready)
    (said : transitionsOf lines = [run.drive.transitionLine .retrying]) :
    ∃ scene', scene'.Holds job ⟨now, cs', { run.drive with state := .retrying, phase },
        run.log ++ lines, run.made ++ ([] : List JobCall)⟩ ∧
      scene.Leads job (.judging outcome) scene' := by
  obtain ⟨number, rfl, -, -⟩ := holds.stands.works (by rw [judging]; rfl)
  rw [holds.transitionLine] at said
  have left : min (number + 1) maxAttempts ≤ job.maxRetries := by
    simpa only [holds.ofJob, Scene.calls] using left
  refine ⟨.retry (number + 1), holds.move holds.calls holds.ofJob rfl ?_ (List.append_nil _) ?_,
    .retry failure left⟩
  · rw [said]
    rfl
  · rw [next]
    cases policy.backoff with
    | none => exact .retry left
    | some pause => exact .pause left _

theorem Holds.last (holds : scene.Holds job run) (judging : run.drive.phase = .judging outcome)
    (spent : run.drive.job.maxRetries < run.drive.job.attemptCount) :
    scene = .attempt (job.maxRetries + 1) ∧ job.maxRetries < maxAttempts ∧
      run.drive.job.hasCompensator = job.hasCompensator := by
  obtain ⟨number, rfl, -, left⟩ := holds.stands.works (by rw [judging]; rfl)
  rw [holds.ofJob] at spent ⊢
  simp only [Scene.calls] at spent
  obtain rfl : number = job.maxRetries := by omega
  exact ⟨rfl, by omega, rfl⟩

theorem Holds.compensate (holds : scene.Holds job run)
    (judging : run.drive.phase = .judging outcome) (failure : outcome.isSuccess = false)
    (spent : run.drive.job.maxRetries < run.drive.job.attemptCount)
    (present : run.drive.job.hasCompensator = true)
    (said : transitionsOf lines = [run.drive.transitionLine .compensating]) :
    ∃ scene', scene'.Holds job
        ⟨now, cs', { run.drive with state := .compensating, phase := .reverting outcome },
          run.log ++ lines, run.made ++ ([] : List JobCall)⟩ ∧
      scene.Leads job (.judging outcome) scene' := by
  obtain ⟨rfl, limited, same⟩ := holds.last judging spent
  rw [same] at present
  rw [holds.transitionLine] at said
  refine ⟨.revert outcome, holds.move holds.calls holds.ofJob rfl ?_ (List.append_nil _)
    (.revert _ present limited), .revert failure present limited⟩
  rw [said]
  rfl

theorem Holds.abandon (holds : scene.Holds job run) (judging : run.drive.phase = .judging outcome)
    (failure : outcome.isSuccess = false)
    (spent : run.drive.job.maxRetries < run.drive.job.attemptCount)
    (absent : run.drive.job.hasCompensator = false)
    (said : transitionsOf lines = [run.drive.transitionLine .abandoned]) :
    ∃ scene', scene'.Holds job ⟨now, cs', run.drive.finish .abandoned false, run.log ++ lines,
        run.made ++ ([] : List JobCall)⟩ ∧ scene.Leads job (.judging outcome) scene' := by
  obtain ⟨rfl, limited, same⟩ := holds.last judging spent
  rw [same] at absent
  rw [holds.transitionLine] at said
  refine ⟨.failure, holds.move holds.calls holds.ofJob rfl ?_ (List.append_nil _) ?_,
    .fail failure absent limited⟩
  · rw [said]
    rfl
  · simp only [Drive.finish, holds.ofJob]
    exact .failure limited

theorem Holds.close (holds : scene.Holds job run) (reverted : run.drive.phase = .reverted)
    (said : transitionsOf lines = [run.drive.transitionLine .abandoned]) :
    ∃ scene', scene'.Holds job ⟨now, cs', run.drive.finish .abandoned true, run.log ++ lines,
        run.made ++ ([] : List JobCall)⟩ ∧ scene.Leads job .reverted scene' := by
  obtain ⟨outcome, inspections, rfl, limited⟩ := holds.stands.undoes (by rw [reverted]; rfl)
  rw [holds.transitionLine] at said
  refine ⟨.undone outcome inspections,
    holds.move holds.calls holds.ofJob rfl ?_ (List.append_nil _) ?_, .close _ _⟩
  · rw [said]
    rfl
  · simp only [Drive.finish, holds.ofJob]
    exact .undone _ _ limited

theorem Holds.undo {waiting : Aggregation} (holds : scene.Holds job run)
    (waits : run.drive.revertCollects policy now = some waiting) (reverts : phase.reverts = true)
    (settled : (phase.waits || phase.leaves) = true)
    (said : transitionsOf lines = (if run.drive.phase.turns then
      [run.drive.transitionLine run.drive.state] else []) ++ run.drive.remarks) :
    ∃ scene', scene'.Holds job ⟨now, cs', { run.drive with phase }, run.log ++ lines,
        run.made ++ ([] : List JobCall)⟩ ∧ scene.Follows job run.drive.phase phase scene' := by
  obtain ⟨reverting, stays⟩ := Drive.reverts_of_revertCollects waits
  obtain ⟨outcome, inspections, rfl, limited⟩ := holds.stands.undoes reverting
  rw [Drive.silent_of_waits _ _ (.inr ⟨_, waits⟩)] at said
  exact ⟨_, holds.stay said (.undo _ _ reverts limited), .stays stays settled⟩

end

theorem Holds.of_driveStep (holds : scene.Holds job run)
    (step : DriveStep policy now cs run.drive d' cs' made)
    (said : transitionsOf lines =
      (if run.drive.phase.turns then [run.drive.transitionLine d'.state] else []) ++
        run.drive.remarks) :
    ∃ scene', scene'.Holds job ⟨now, cs', d', run.log ++ lines, run.made ++ made⟩ ∧
      scene.Follows job run.drive.phase d'.phase scene' := by
  have stands := holds.stands
  cases step with
  | @launch started writes cs' phase call begun =>
      obtain ⟨rfl, -⟩ := Prod.mk.inj begun
      simp only [Drive.remarks, phase] at said ⊢
      have works := Call.Works.launched cs call
      exact follows_of_leads (holds.launch phase works said)
  | fail phase call stood =>
      obtain ⟨rfl, -⟩ := Prod.mk.inj stood
      simp only [Drive.remarks, phase] at said ⊢
      have works := Call.Works.judging (.failed cs.entries.size call)
      exact follows_of_leads (holds.launch phase works said)
  | wait waits polled incomplete =>
      obtain ⟨number, rfl, works, left⟩ := stands.works (Drive.works_of_collects waits).1
      rw [Drive.silent_of_waits _ _ (.inl ⟨_, waits⟩)] at said
      exact ⟨_, holds.stay said (.attempt (works.poll waits polled) left),
        .stays (Drive.works_of_collects waits).2 rfl⟩
  | gather waits polled complete =>
      obtain ⟨number, rfl, works, left⟩ := stands.works (Drive.works_of_collects waits).1
      rw [Drive.silent_of_waits _ _ (.inl ⟨_, waits⟩)] at said
      have judged := (works.poll waits polled).gather complete
      exact ⟨_, holds.stay said (.attempt judged left),
        .stays (Drive.works_of_collects waits).2 rfl⟩
  | succeed phase success =>
      simp only [Drive.remarks, phase] at said ⊢
      exact follows_of_leads (holds.succeed phase success said)
  | retry phase failure left next =>
      simp only [Drive.remarks, phase] at said ⊢
      exact follows_of_leads (holds.retry phase failure left next said)
  | compensate phase failure spent present =>
      simp only [Drive.remarks, phase] at said ⊢
      exact follows_of_leads (holds.compensate phase failure spent present said)
  | abandon phase failure spent absent =>
      simp only [Drive.remarks, phase] at said ⊢
      exact follows_of_leads (holds.abandon phase failure spent absent said)
  | goOn phase =>
      simp only [Drive.remarks, phase] at stands said
      cases stands with
      | attempt works => cases works
      | undo _ _ reverts => cases reverts
      | pause left =>
          exact ⟨_, holds.stay said (.retry left), .stays (congrArg Phase.leaves phase) rfl⟩
  | skipRevert phase absent =>
      rw [phase] at stands
      rw [holds.ofJob] at absent
      cases stands with
      | attempt works => cases works
      | undo _ _ reverts => cases reverts
      | revert outcome present =>
          change job.compensator = none at absent
          rw [Job.hasCompensator, absent] at present
          cases present
  | @revert _ _ _ _ _ writes _ phase present inspected call begun =>
      have reverts : (Phase.revertLaunched writes).reverts = true := rfl
      simp only [Drive.remarks, phase] at said ⊢
      exact follows_of_leads (holds.call phase reverts said)
  | revertFail phase present inspected call =>
      have reverts : Phase.reverted.reverts = true := rfl
      simp only [Drive.remarks, phase] at said ⊢
      exact follows_of_leads (holds.call phase reverts said)
  | revertWait waits polled => exact holds.undo waits rfl rfl said
  | revertGather waits polled => exact holds.undo waits rfl rfl said
  | close phase =>
      simp only [Drive.remarks, phase] at said ⊢
      exact follows_of_leads (holds.close phase said)

theorem Holds.begin (fresh : job.attemptCount = 0) (now : Instant) (cs : Completions) :
    Scene.start.Holds job (.begin now cs job) := by
  refine ⟨rfl, ?_, rfl, rfl, rfl, .start⟩
  change job = { job with attemptCount := 0 }
  rw [← fresh]

theorem Holds.met (holds : scene.Holds job run) (around : Surroundings) (turn : Nat) :
    scene.Holds job (run.met around turn) :=
  ⟨holds.calls, holds.ofJob, holds.state, holds.transitions, holds.made, holds.stands⟩

theorem Holds.tick (holds : scene.Holds job run) (going : run.drive.resolution? = none) :
    ∃ scene', scene'.Holds job (run.tick policy) ∧
      scene.Follows job run.drive.phase (run.tick policy).drive.phase scene' := by
  unfold SoloRun.tick
  split
  · exact holds.of_driveStep (Drive.step_driveStep going) run.drive.transitionsOf_step
  · rename_i stuck
    refine ⟨scene, holds, .stays ?_ ?_⟩ <;>
      cases phase : run.drive.phase <;>
        simp_all [Drive.canStep, Drive.resolution?, Phase.leaves, Phase.waits]

theorem tick_of_ended {resolution : Resolution} (ended : run.drive.phase = .ended resolution) :
    run.tick policy = run := by
  rw [SoloRun.tick, Drive.canStep, ended]
  rfl

theorem exists_holds (policy : RetryPolicy) (around : Surroundings) (fresh : job.attemptCount = 0)
    (turn : Nat) : ∃ scene, Scene.Holds job scene (.within policy around job turn) := by
  induction turn with
  | zero => exact ⟨.start, .begin fresh .start .empty⟩
  | succ turn ih =>
      obtain ⟨scene, holds⟩ := ih
      have met := holds.met around turn
      cases going : ((SoloRun.within policy around job turn).met around turn).drive.resolution? with
      | none =>
          obtain ⟨scene', after, -⟩ := met.tick going
          exact ⟨scene', after⟩
      | some resolution =>
          refine ⟨scene, ?_⟩
          rw [SoloRun.within, tick_of_ended (Drive.phase_of_resolution? going)]
          exact met

end Scene

end KeyedJobs
