import KeyedJobs.Retry.Drive

/-! # What a drive calls

The steps of a drive, one constructor for each thing that a step can do, and what follows for the
calls that a drive makes: whatever goes on around it, it calls the action with rising numbers and
then, if at all, the compensator once.
-/

namespace KeyedJobs

/-- The error that stands for a call which hands back no completions. -/
def Call.error? : Call → Option CompletionError
  | .writes _ => none
  | .fails error => some (.failed error)
  | .panics panic => some (.ofPanic panic)

/-- The number of the attempt, unless the compensator is called. -/
def JobCall.number? : JobCall → Option Nat
  | .attempt number => some number
  | .compensate _ _ => none

namespace Drive

variable {policy : RetryPolicy} {now : Instant} {cs : Completions} {d : Drive}

/-- The drive with its next attempt counted. -/
def counted (d : Drive) : Drive :=
  { d with
    job := { d.job with attemptCount := nextAttempt d.job.attemptCount }
    state := .running
    calls := d.calls + 1 }

/-- The completions of the attempt that the drive waits for, from its first poll on. -/
def collects (policy : RetryPolicy) (now : Instant) (d : Drive) : Option Aggregation :=
  match d.phase with
  | .launched writes => some (.begin now policy.completionTimeout writes)
  | .collecting waiting => some waiting
  | _ => none

/-- The completions of the compensator that the drive waits for. -/
def revertCollects (policy : RetryPolicy) (now : Instant) (d : Drive) : Option Aggregation :=
  match d.phase with
  | .revertLaunched writes => some (.begin now policy.completionTimeout writes)
  | .revertCollecting waiting => some waiting
  | _ => none

/-- The drive with its compensator used up. -/
def spent (d : Drive) : Drive :=
  { d with job := { d.job with compensator := none } }

end Drive

/-- A step of a drive that has not ended. The last three indices are the drive and the completions
after it, and the calls that it makes. -/
inductive DriveStep (policy : RetryPolicy) (now : Instant) (cs : Completions) (d : Drive) :
    Drive → Completions → List JobCall → Prop where
  | launch {started writes cs'} (phase : d.phase = .ready)
      (call : d.job.action (d.calls + 1) = .writes started)
      (begun : cs.startEach started = (writes, cs')) :
      DriveStep policy now cs d { d.counted with phase := .launched writes } cs'
        [.attempt (d.calls + 1)]
  | fail {error outcome cs'} (phase : d.phase = .ready)
      (call : (d.job.action (d.calls + 1)).error? = some error)
      (stands : Outcome.ofError error cs = (outcome, cs')) :
      DriveStep policy now cs d { d.counted with phase := .judging outcome } cs'
        [.attempt (d.calls + 1)]
  | wait {waiting waiting' cs'} (waits : d.collects policy now = some waiting)
      (polled : waiting.poll now cs = (waiting', cs')) (incomplete : waiting'.isComplete = false) :
      DriveStep policy now cs d { d with phase := .collecting waiting' } cs' []
  | gather {waiting waiting' cs'} (waits : d.collects policy now = some waiting)
      (polled : waiting.poll now cs = (waiting', cs')) (complete : waiting'.isComplete = true) :
      DriveStep policy now cs d { d with phase := .judging waiting'.outcome } cs' []
  | succeed {outcome} (phase : d.phase = .judging outcome) (success : outcome.isSuccess = true) :
      DriveStep policy now cs d (d.finish .succeeded false) cs []
  | retry {outcome next} (phase : d.phase = .judging outcome) (failure : outcome.isSuccess = false)
      (left : d.job.attemptCount ≤ d.job.maxRetries)
      (next_eq : next = match policy.backoff with
        | some pause => .pausing (now.after pause)
        | none => .ready) :
      DriveStep policy now cs d { d with state := .retrying, phase := next } cs []
  | compensate {outcome} (phase : d.phase = .judging outcome)
      (failure : outcome.isSuccess = false) (spent : d.job.maxRetries < d.job.attemptCount)
      (present : d.job.hasCompensator = true) :
      DriveStep policy now cs d { d with state := .compensating, phase := .reverting outcome } cs []
  | abandon {outcome} (phase : d.phase = .judging outcome) (failure : outcome.isSuccess = false)
      (spent : d.job.maxRetries < d.job.attemptCount) (absent : d.job.hasCompensator = false) :
      DriveStep policy now cs d (d.finish .abandoned false) cs []
  | goOn {due} (phase : d.phase = .pausing due) :
      DriveStep policy now cs d { d with phase := .ready } cs []
  | skipRevert {outcome} (phase : d.phase = .reverting outcome)
      (absent : d.job.compensator = none) :
      DriveStep policy now cs d { d with phase := .reverted } cs []
  | revert {outcome compensator inspections cs₁ started writes cs'}
      (phase : d.phase = .reverting outcome) (present : d.job.compensator = some compensator)
      (inspected : (if compensator.inspects then cs.inspectEach now outcome.failedCompletions
        else ([], cs)) = (inspections, cs₁))
      (call : compensator.respond outcome.failedCompletions = .writes started)
      (begun : cs₁.startEach started = (writes, cs')) :
      DriveStep policy now cs d { d.spent with phase := .revertLaunched writes } cs'
        [.compensate outcome.failedCompletions inspections]
  | revertFail {outcome compensator inspections cs' error}
      (phase : d.phase = .reverting outcome) (present : d.job.compensator = some compensator)
      (inspected : (if compensator.inspects then cs.inspectEach now outcome.failedCompletions
        else ([], cs)) = (inspections, cs'))
      (call : (compensator.respond outcome.failedCompletions).error? = some error) :
      DriveStep policy now cs d { d.spent with phase := .reverted } cs'
        [.compensate outcome.failedCompletions inspections]
  | revertWait {waiting waiting' cs'} (waits : d.revertCollects policy now = some waiting)
      (polled : waiting.poll now cs = (waiting', cs')) (incomplete : waiting'.isComplete = false) :
      DriveStep policy now cs d { d with phase := .revertCollecting waiting' } cs' []
  | revertGather {waiting waiting' cs'} (waits : d.revertCollects policy now = some waiting)
      (polled : waiting.poll now cs = (waiting', cs')) :
      DriveStep policy now cs d { d with phase := .reverted } cs' []
  | close (phase : d.phase = .reverted) :
      DriveStep policy now cs d (d.finish .abandoned true) cs []

namespace Drive

variable {policy : RetryPolicy} {now : Instant} {cs : Completions} {d : Drive}

theorem attempt_driveStep (phase : d.phase = .ready) :
    DriveStep policy now cs d (d.attempt cs).drive (d.attempt cs).completions
      (d.attempt cs).made := by
  simp only [attempt]
  cases call : d.job.action (d.calls + 1) with
  | writes started => exact .launch phase call rfl
  | fails error => exact .fail phase (by rw [call]; rfl) rfl
  | panics panic => exact .fail phase (by rw [call]; rfl) rfl

theorem judge_driveStep {outcome : Outcome} (phase : d.phase = .judging outcome) :
    DriveStep policy now cs d (d.judge policy now cs outcome).drive
      (d.judge policy now cs outcome).completions (d.judge policy now cs outcome).made := by
  simp only [judge, Decision.afterAttempt]
  cases success : outcome.isSuccess with
  | true => exact .succeed phase success
  | false =>
      by_cases left : d.job.attemptCount ≤ d.job.maxRetries
      · simp only [Bool.false_eq_true, if_false, left, if_true]
        exact .retry phase success left rfl
      · cases present : d.job.hasCompensator with
        | true =>
            simp only [Bool.false_eq_true, if_false, left, if_true]
            exact .compensate phase success (by omega) present
        | false =>
            simp only [Bool.false_eq_true, if_false, left]
            exact .abandon phase success (by omega) present

theorem revert_driveStep {outcome : Outcome} (phase : d.phase = .reverting outcome) :
    DriveStep policy now cs d (d.revert now cs outcome).drive
      (d.revert now cs outcome).completions (d.revert now cs outcome).made := by
  simp only [revert]
  cases present : d.job.compensator with
  | none => exact .skipRevert phase present
  | some compensator =>
      dsimp only
      cases call : compensator.respond outcome.failedCompletions with
      | writes started => exact .revert phase present rfl call rfl
      | fails error => exact .revertFail phase present rfl (by rw [call]; rfl)
      | panics panic => exact .revertFail phase present rfl (by rw [call]; rfl)

theorem collect_driveStep {waiting waiting' : Aggregation} {cs' : Completions}
    (waits : d.collects policy now = some waiting) (polled : waiting.poll now cs = (waiting', cs')) :
    DriveStep policy now cs d (d.collect waiting' cs').drive (d.collect waiting' cs').completions
      (d.collect waiting' cs').made := by
  simp only [collect]
  cases complete : waiting'.isComplete with
  | true => exact .gather waits polled complete
  | false => exact .wait waits polled complete

theorem collectRevert_driveStep {waiting waiting' : Aggregation} {cs' : Completions}
    (waits : d.revertCollects policy now = some waiting)
    (polled : waiting.poll now cs = (waiting', cs')) :
    DriveStep policy now cs d (d.collectRevert waiting' cs').drive
      (d.collectRevert waiting' cs').completions (d.collectRevert waiting' cs').made := by
  unfold collectRevert
  cases complete : waiting'.isComplete with
  | true => exact .revertGather waits polled
  | false => exact .revertWait waits polled complete

theorem phase_of_resolution? {resolution : Resolution}
    (ended : d.resolution? = some resolution) : d.phase = .ended resolution := by
  unfold resolution? at ended
  cases phase : d.phase <;> simp_all

theorem resolution?_of_canStep (possible : d.canStep now cs = true) : d.resolution? = none := by
  unfold canStep at possible
  unfold resolution?
  cases phase : d.phase <;> simp_all

theorem step_driveStep (going : d.resolution? = none) :
    DriveStep policy now cs d (d.step policy now cs).drive (d.step policy now cs).completions
      (d.step policy now cs).made := by
  unfold step
  cases phase : d.phase with
  | ready => exact attempt_driveStep phase
  | launched writes => exact collect_driveStep (by simp [collects, phase]) rfl
  | collecting waiting => exact collect_driveStep (by simp [collects, phase]) rfl
  | judging outcome => exact judge_driveStep phase
  | pausing due => exact .goOn phase
  | reverting outcome => exact revert_driveStep phase
  | revertLaunched writes => exact collectRevert_driveStep (by simp [revertCollects, phase]) rfl
  | revertCollecting waiting => exact collectRevert_driveStep (by simp [revertCollects, phase]) rfl
  | reverted => exact .close phase
  | ended resolution => simp [resolution?, phase] at going

end Drive

/-- Whether the compensator has been called in this phase. -/
def Phase.hasReverted : Phase → Bool
  | .revertLaunched _ | .revertCollecting _ | .reverted => true
  | .ended resolution => resolution.compensated
  | _ => false

/-- Whether an attempt is about to start, perhaps after a pause. -/
def Phase.isStarting : Phase → Bool
  | .ready | .pausing _ => true
  | _ => false

namespace Drive

variable {policy : RetryPolicy} {now : Instant} {cs cs' : Completions} {d d' : Drive}
  {job : Job} {made : List JobCall}

/-- What a drive keeps of the job that it began with. -/
structure OfJob (job : Job) (d : Drive) : Prop where
  kept : ({ d.job with attemptCount := job.attemptCount, compensator := job.compensator } : Job) = job
  compensator : d.phase.hasReverted = false → d.job.compensator = job.compensator
  reverting : ∀ outcome, d.phase = .reverting outcome → d.job.compensator ≠ none

theorem OfJob.begin (job : Job) : OfJob job (Drive.begin job) :=
  ⟨rfl, fun _ => rfl, fun _ phase => by cases phase⟩

theorem hasReverted_of_collects {waiting : Aggregation} (waits : d.collects policy now = some waiting) :
    d.phase.hasReverted = false := by
  unfold collects at waits
  cases phase : d.phase <;> simp [phase, Phase.hasReverted] at waits ⊢

theorem hasReverted_of_revertCollects {waiting : Aggregation}
    (waits : d.revertCollects policy now = some waiting) : d.phase.hasReverted = true := by
  unfold revertCollects at waits
  cases phase : d.phase <;> simp [phase, Phase.hasReverted] at waits ⊢

theorem OfJob.of_driveStep (ofJob : OfJob job d) (step : DriveStep policy now cs d d' cs' made) :
    OfJob job d' := by
  obtain ⟨kept, compensator, reverting⟩ := ofJob
  cases step with
  | launch phase | fail phase | goOn phase | succeed phase | abandon phase =>
      exact ⟨kept, fun _ => compensator (by rw [phase]; rfl), fun _ other => by cases other⟩
  | retry phase _ _ next =>
      refine ⟨kept, fun _ => compensator (by rw [phase]; rfl), ?_⟩
      intro outcome other
      cases backoff : policy.backoff <;> simp [next, backoff] at other
  | wait waits | gather waits =>
      exact ⟨kept, fun _ => compensator (hasReverted_of_collects waits),
        fun _ other => by cases other⟩
  | compensate phase _ _ present =>
      refine ⟨kept, fun _ => compensator (by rw [phase]; rfl), ?_⟩
      intro _ _ (absent : d.job.compensator = none)
      simp [Job.hasCompensator, absent] at present
  | skipRevert phase absent => exact absurd absent (reverting _ phase)
  | revert | revertFail | revertWait | revertGather | close =>
      exact ⟨kept, (fun unspent => by cases unspent), fun _ other => by cases other⟩

theorem numbers_of_driveStep (ofJob : OfJob job d) (step : DriveStep policy now cs d d' cs' made) :
    d'.calls = d.calls ∧ made = [] ∧ d'.phase.hasReverted = d.phase.hasReverted ∨
      d'.calls = d.calls + 1 ∧ made = [.attempt (d.calls + 1)] ∧ d.phase.hasReverted = false ∧
        d'.phase.hasReverted = false ∨
      d'.calls = d.calls ∧ made.map JobCall.number? = [none] ∧ d.phase.hasReverted = false ∧
        d'.phase.hasReverted = true := by
  cases step with
  | launch phase | fail phase =>
      exact .inr (.inl ⟨rfl, rfl, by rw [phase]; rfl, rfl⟩)
  | goOn phase | succeed phase | abandon phase | compensate phase | close phase =>
      exact .inl ⟨rfl, rfl, by rw [phase]; rfl⟩
  | retry phase _ _ next =>
      refine .inl ⟨rfl, rfl, ?_⟩
      rw [phase, next]
      cases policy.backoff <;> rfl
  | wait waits | gather waits => exact .inl ⟨rfl, rfl, (hasReverted_of_collects waits).symm⟩
  | skipRevert phase absent => exact absurd absent (ofJob.reverting _ phase)
  | revert phase | revertFail phase =>
      exact .inr (.inr ⟨rfl, rfl, by rw [phase]; rfl, rfl⟩)
  | revertWait waits | revertGather waits =>
      exact .inl ⟨rfl, rfl, (hasReverted_of_revertCollects waits).symm⟩

/-- The counted attempts of a job that began without any are the calls of its action, and one more
is allowed where an attempt is about to start. -/
structure Counted (d : Drive) : Prop where
  counts : d.job.attemptCount = d.calls
  within : d.calls ≤ d.job.maxRetries + 1
  allowed : d.phase.isStarting = true → d.calls ≤ d.job.maxRetries
  reports : ∀ resolution, d.phase = .ended resolution →
    resolution.attempts = d.calls ∧ resolution.state.isTerminal = true

theorem Counted.begin (fresh : job.attemptCount = 0) : Counted (Drive.begin job) where
  counts := fresh
  within := Nat.zero_le _
  allowed _ := Nat.zero_le _
  reports _ phase := by cases phase

theorem Counted.of_driveStep (counted : Counted d) (limited : d.job.maxRetries < maxAttempts)
    (step : DriveStep policy now cs d d' cs' made) : Counted d' := by
  obtain ⟨counts, within, allowed, reports⟩ := counted
  cases step with
  | launch phase | fail phase =>
      have left : d.calls ≤ d.job.maxRetries := allowed (by rw [phase]; rfl)
      refine ⟨?_, Nat.succ_le_succ left, (fun starts => by cases starts),
        fun _ ended => by cases ended⟩
      change min (d.job.attemptCount + 1) maxAttempts = d.calls + 1
      omega
  | succeed | abandon | close =>
      refine ⟨counts, within, (fun starts => by cases starts), fun resolution ended => ?_⟩
      obtain rfl := Phase.ended.inj ended
      exact ⟨counts, rfl⟩
  | retry _ _ left =>
      have left : d.calls ≤ d.job.maxRetries := by omega
      refine ⟨counts, within, fun _ => left, fun resolution ended => ?_⟩
      cases backoff : policy.backoff <;> simp_all
  | goOn phase =>
      exact ⟨counts, within, fun _ => allowed (by rw [phase]; rfl), fun _ ended => by cases ended⟩
  | _ => exact ⟨counts, within, (fun starts => by cases starts), fun _ ended => by cases ended⟩

end Drive

/-- A drive of the job that has made these calls. Before each step anything may happen around it
that `fits` allows. -/
inductive Traced (fits : Drive → Instant → Completions → Prop) (policy : RetryPolicy) (job : Job) :
    Drive → List JobCall → Prop where
  | begin : Traced fits policy job (Drive.begin job) []
  | step {drive : Drive} {made : List JobCall} (now : Instant) (cs : Completions)
      (traced : Traced fits policy job drive made) (going : drive.resolution? = none)
      (fitting : fits drive now cs) :
      Traced fits policy job (drive.step policy now cs).drive
        (made ++ (drive.step policy now cs).made)

namespace Traced

variable {fits : Drive → Instant → Completions → Prop} {policy : RetryPolicy} {job : Job}
  {drive : Drive} {made : List JobCall}

theorem ofJob (traced : Traced fits policy job drive made) : drive.OfJob job := by
  induction traced with
  | begin => exact .begin job
  | step now cs _ going _ ih => exact ih.of_driveStep (Drive.step_driveStep going)

theorem numbers (traced : Traced fits policy job drive made) :
    made.map JobCall.number? = (List.range drive.calls).map (some <| · + 1) ++
      if drive.phase.hasReverted then [none] else [] := by
  induction traced with
  | begin => rfl
  | step now cs traced going _ ih =>
      rw [List.map_append, ih]
      have step : DriveStep policy now cs _ _ _ _ := Drive.step_driveStep going
      rcases Drive.numbers_of_driveStep traced.ofJob step with
        ⟨calls, none_made, same⟩ | ⟨calls, called, before, after⟩ | ⟨calls, called, before, after⟩
      · simp [calls, none_made, same]
      · simp [calls, called, before, after, JobCall.number?, List.range_succ]
      · simp [calls, called, before, after]

theorem counted (traced : Traced fits policy job drive made) (fresh : job.attemptCount = 0)
    (limited : job.maxRetries < maxAttempts) : drive.Counted := by
  induction traced with
  | begin => exact .begin fresh
  | @step drive _ now cs traced going _ ih =>
      have same : drive.job.maxRetries = job.maxRetries := by rw [← traced.ofJob.kept]
      have step : DriveStep policy now cs drive _ _ _ := Drive.step_driveStep going
      exact ih.of_driveStep (same ▸ limited) step

theorem reports (traced : Traced fits policy job drive made) (fresh : job.attemptCount = 0)
    (limited : job.maxRetries < maxAttempts) {resolution : Resolution}
    (ended : drive.resolution? = some resolution) :
    resolution.state.isTerminal = true ∧
      made.countP (·.number?.isSome) = resolution.attempts ∧
      made.countP (·.number?.isNone) = if resolution.compensated then 1 else 0 := by
  have phase := Drive.phase_of_resolution? ended
  obtain ⟨attempts, terminal⟩ := (traced.counted fresh limited).reports resolution phase
  have numbers := traced.numbers
  have called (chosen : Option Nat → Bool) : made.countP (fun call => chosen call.number?) =
      (made.map JobCall.number?).countP chosen := (List.countP_map).symm
  refine ⟨terminal, ?_, ?_⟩
  · rw [called Option.isSome, numbers, phase, attempts]
    cases compensated : resolution.compensated <;>
      simp [Phase.hasReverted, compensated, List.countP_map, Function.comp_def]
  · rw [called Option.isNone, numbers, phase]
    cases compensated : resolution.compensated <;>
      simp [Phase.hasReverted, compensated, List.countP_map, Function.comp_def]

end Traced

end KeyedJobs
