import KeyedJobs.Proofs.Retry.Surroundings

/-! # The protocol of attempts and compensation

A drive whose waits all come to an end makes its attempts one after the other. It ends with the first
one that succeeds. If none is left, it calls the compensator once, if there is one, with the
completions that failed in the last attempt, and abandons the job. Nothing is assumed about what else
happens to the completions.
-/

namespace KeyedJobs

open SoloRun (within)

variable {policy : RetryPolicy} {around : Surroundings} {job : Job} {scene scene' : Scene}
  {turn : Nat}

/-- No wait goes on for ever. -/
def EveryWaitEnds (runs : Nat → SoloRun) : Prop :=
  ∀ turn, (runs turn).drive.phase.waits = true →
    ∃ later, turn ≤ later ∧ (runs later).drive.phase.waits = false

namespace Scene

/-- How the job is resolved, if the scene is the last one. -/
def resolution? (job : Job) : Scene → Option Resolution
  | .undone _ _ =>
      some ⟨job.key, .abandoned, min (job.maxRetries + 1) maxAttempts, true⟩
  | .success number => some ⟨job.key, .succeeded, min number maxAttempts, false⟩
  | .failure => some ⟨job.key, .abandoned, min (job.maxRetries + 1) maxAttempts, false⟩
  | _ => none

theorem Leads.leaves {phase : Phase} (leads : scene.Leads job phase scene') :
    phase.leaves = true := by
  cases leads <;> rfl

theorem Holds.resolution?_eq {run : SoloRun} (holds : scene.Holds job run) :
    run.drive.resolution? = scene.resolution? job := by
  have stands := holds.stands
  unfold Drive.resolution?
  generalize run.drive.phase = phase at stands
  cases stands with
  | attempt works => cases works <;> rfl
  | undo _ _ reverts => cases phase <;> first | rfl | cases reverts
  | _ => rfl

theorem Holds.next (holds : scene.Holds job (within policy around job turn))
    (unended : scene.resolution? job = none) :
    ∃ scene', scene'.Holds job (within policy around job (turn + 1)) ∧
      scene.Follows job (within policy around job turn).drive.phase
        (within policy around job (turn + 1)).drive.phase scene' :=
  (holds.met around turn).tick (holds.resolution?_eq.trans unended)

theorem Holds.leaves_of_waits {distance : Nat}
    (holds : scene.Holds job (within policy around job turn)) (unended : scene.resolution? job = none)
    (waits : (within policy around job turn).drive.phase.waits = true)
    (passed : (within policy around job (turn + distance)).drive.phase.waits = false) :
    ∃ later, turn ≤ later ∧ scene.Holds job (within policy around job later) ∧
      (within policy around job later).drive.phase.leaves = true := by
  induction distance generalizing turn with
  | zero =>
      rw [Nat.add_zero, waits] at passed
      cases passed
  | succ distance ih =>
      obtain ⟨scene', after, follows⟩ := holds.next unended
      cases follows with
      | leads leads =>
          have leaves := leads.leaves
          cases phase : (within policy around job turn).drive.phase <;>
            simp_all [Phase.waits, Phase.leaves]
      | stays still settled =>
          rcases Bool.or_eq_true_iff.mp settled with waits | leaves
          · have passed : (within policy around job (turn + 1 + distance)).drive.phase.waits = false := by
              rwa [Nat.add_right_comm, Nat.add_assoc]
            obtain ⟨later, le, found⟩ := ih after waits passed
            exact ⟨later, by omega, found⟩
          · exact ⟨turn + 1, Nat.le_succ turn, after, leaves⟩

theorem Holds.leaving (ends : EveryWaitEnds (within policy around job))
    (holds : scene.Holds job (within policy around job turn)) (unended : scene.resolution? job = none) :
    ∃ later, turn ≤ later ∧ scene.Holds job (within policy around job later) ∧
      (within policy around job later).drive.phase.leaves = true := by
  obtain ⟨scene', after, follows⟩ := holds.next unended
  cases follows with
  | leads leads => exact ⟨turn, Nat.le_refl turn, holds, leads.leaves⟩
  | stays still settled =>
      rcases Bool.or_eq_true_iff.mp settled with waits | leaves
      · obtain ⟨passed, le, unwaiting⟩ := ends (turn + 1) waits
        obtain ⟨distance, rfl⟩ := Nat.exists_eq_add_of_le le
        obtain ⟨later, le, found⟩ := after.leaves_of_waits unended waits unwaiting
        exact ⟨later, by omega, found⟩
      · exact ⟨turn + 1, Nat.le_succ turn, after, leaves⟩

theorem Holds.led (holds : scene.Holds job (within policy around job turn))
    (unended : scene.resolution? job = none)
    (leaves : (within policy around job turn).drive.phase.leaves = true) :
    ∃ scene', scene.Leads job (within policy around job turn).drive.phase scene' ∧
      scene'.Holds job (within policy around job (turn + 1)) := by
  obtain ⟨scene', after, follows⟩ := holds.next unended
  cases follows with
  | leads leads => exact ⟨scene', leads, after⟩
  | stays still => simp [leaves] at still

theorem Holds.leads (ends : EveryWaitEnds (within policy around job))
    (holds : scene.Holds job (within policy around job turn)) (unended : scene.resolution? job = none) :
    ∃ later phase scene', scene.Leads job phase scene' ∧
      scene'.Holds job (within policy around job later) := by
  obtain ⟨later, -, holds, leaves⟩ := holds.leaving ends unended
  obtain ⟨scene', leads, after⟩ := holds.led unended leaves
  exact ⟨later + 1, _, scene', leads, after⟩

/-- The place of the scene in the course of the job. -/
def rank (job : Job) : Scene → Nat
  | .start => 0
  | .attempt number => 2 * number
  | .retry number | .success number => 2 * number + 1
  | .revert _ | .failure => 2 * (job.maxRetries + 1) + 1
  | .undo _ _ => 2 * (job.maxRetries + 1) + 2
  | .undone _ _ => 2 * (job.maxRetries + 1) + 3

theorem Leads.rank_lt {phase : Phase} (leads : scene.Leads job phase scene') :
    scene.rank job < scene'.rank job := by
  cases leads <;> simp only [rank] <;> omega

theorem Holds.stays {resolution : Resolution}
    (holds : scene.Holds job (within policy around job turn))
    (last : scene.resolution? job = some resolution) :
    scene.Holds job (within policy around job (turn + 1)) := by
  have met := holds.met around turn
  rw [within, tick_of_ended (Drive.phase_of_resolution? (met.resolution?_eq.trans last))]
  exact met

theorem Holds.next_or_ended (holds : scene.Holds job (within policy around job turn)) :
    ∃ scene', scene'.Holds job (within policy around job (turn + 1)) ∧
      (scene' = scene ∨ scene.rank job < scene'.rank job) := by
  cases last : scene.resolution? job with
  | none =>
      obtain ⟨scene', after, follows⟩ := holds.next last
      cases follows with
      | stays => exact ⟨scene, after, .inl rfl⟩
      | leads leads => exact ⟨scene', after, .inr leads.rank_lt⟩
  | some resolution => exact ⟨scene, holds.stays last, .inl rfl⟩

theorem Holds.lasts {resolution : Resolution}
    (holds : scene.Holds job (within policy around job turn))
    (last : scene.resolution? job = some resolution) (more : Nat) :
    scene.Holds job (within policy around job (turn + more)) := by
  induction more with
  | zero => exact holds
  | succ more ih => exact ih.stays last

theorem Holds.onward (holds : scene.Holds job (within policy around job turn)) (more : Nat) :
    ∃ scene', scene'.Holds job (within policy around job (turn + more)) ∧
      (scene' = scene ∨ scene.rank job < scene'.rank job) := by
  induction more with
  | zero => exact ⟨scene, holds, .inl rfl⟩
  | succ more ih =>
      obtain ⟨middle, holds, first⟩ := ih
      obtain ⟨scene', after, second⟩ := holds.next_or_ended
      refine ⟨scene', after, ?_⟩
      rcases first with rfl | first
      · exact second
      · rcases second with rfl | second
        · exact .inr first
        · exact .inr (Nat.lt_trans first second)

end Scene

/-- The attempt with this number comes to this outcome in some turn. -/
def Comes (runs : Nat → SoloRun) (number : Nat) (outcome : Outcome) : Prop :=
  ∃ turn, (runs turn).drive.phase = .judging outcome ∧ (runs turn).drive.calls = number

/-- In some turn the drive has returned this, has made these calls and has logged these changes of
state. -/
def Closes (runs : Nat → SoloRun) (resolution : Resolution) (made : List JobCall)
    (transitions : List LogLine) : Prop :=
  ∃ turn, (runs turn).result? = some (.ok resolution) ∧ (runs turn).made.toList = made ∧
    transitionsOf (runs turn).log.toList = transitions

/-- How a job is driven that is allowed this number of retries. -/
structure Protocol (job : Job) (runs : Nat → SoloRun) : Prop where
  /-- There is a first attempt. -/
  begins : ∃ outcome, Comes runs 1 outcome
  /-- An attempt comes to one outcome, which is that of its call. -/
  reports {number outcome} (comes : Comes runs number outcome) :
    (job.action number).Reports outcome
  single {number outcome outcome'} (comes : Comes runs number outcome)
    (comes' : Comes runs number outcome') : outcome = outcome'
  /-- Before it all others have failed. -/
  earlier {number outcome} (comes : Comes runs number outcome) {other : Nat} (first : 1 ≤ other)
    (before : other < number) : ∃ outcome', Comes runs other outcome' ∧ outcome'.isSuccess = false
  /-- The retries bound the attempts, unless as many are allowed as can be counted. -/
  bounded {number outcome} (comes : Comes runs number outcome) :
    number ≤ job.maxRetries + 1 ∨ job.maxRetries = maxAttempts
  /-- A failure is retried as long as retries are left. -/
  retries {number outcome} (comes : Comes runs number outcome)
    (failure : outcome.isSuccess = false)
    (left : number ≤ job.maxRetries ∨ job.maxRetries = maxAttempts) :
    ∃ outcome', Comes runs (number + 1) outcome'
  succeeds {number outcome} (comes : Comes runs number outcome)
    (success : outcome.isSuccess = true) :
    Closes runs ⟨job.key, .succeeded, min number maxAttempts, false⟩ (attempts number)
      (job.tries number ++ [job.transition .running .succeeded])
  abandons {outcome} (limited : job.maxRetries < maxAttempts) (absent : job.compensator = none)
    (comes : Comes runs (job.maxRetries + 1) outcome) (failure : outcome.isSuccess = false) :
    Closes runs ⟨job.key, .abandoned, job.maxRetries + 1, false⟩ (attempts (job.maxRetries + 1))
      (job.tries (job.maxRetries + 1) ++ [job.transition .running .abandoned])
  compensates {outcome compensator} (limited : job.maxRetries < maxAttempts)
    (present : job.compensator = some compensator)
    (comes : Comes runs (job.maxRetries + 1) outcome) (failure : outcome.isSuccess = false) :
    ∃ inspections, Closes runs ⟨job.key, .abandoned, job.maxRetries + 1, true⟩
      (attempts (job.maxRetries + 1) ++ [.compensate outcome.failedCompletions inspections])
      (job.tries (job.maxRetries + 1) ++ [job.transition .running .compensating] ++
        transitionsOf (compensator.remark outcome.failures.length) ++
        [job.transition .compensating .abandoned])
  /-- Without a bound on the retries nothing is abandoned and nothing is compensated. -/
  unlimited (allowed : job.maxRetries = maxAttempts) (turn : Nat) :
    (∀ call ∈ (runs turn).made, ∃ number, call = .attempt number) ∧
      ∀ resolution, (runs turn).drive.resolution? = some resolution →
        resolution.state = .succeeded ∧ resolution.compensated = false

section Within

variable {number : Nat} {outcome outcome' : Outcome}

theorem attempt_of_comes (fresh : job.attemptCount = 0)
    (comes : Comes (within policy around job) number outcome) :
    ∃ turn before, number = before + 1 ∧
      (Scene.attempt number).Holds job (within policy around job turn) ∧
      (within policy around job turn).drive.phase = .judging outcome ∧
      (job.action number).Reports outcome ∧ min before maxAttempts ≤ job.maxRetries := by
  obtain ⟨turn, phase, calls⟩ := comes
  obtain ⟨scene, holds⟩ := Scene.exists_holds policy around fresh turn
  have busy : (within policy around job turn).drive.phase.works = true := by rw [phase]; rfl
  obtain ⟨before, rfl, works, left⟩ := holds.stands.works busy
  have same : number = before + 1 := calls.symm.trans holds.calls
  subst same
  rw [phase] at works
  cases works with
  | judging reports => exact ⟨turn, before, rfl, holds, phase, reports, left⟩

theorem led_of_comes (fresh : job.attemptCount = 0)
    (comes : Comes (within policy around job) number outcome) :
    ∃ turn scene', Scene.Leads job (.attempt number) (.judging outcome) scene' ∧
      scene'.Holds job (within policy around job turn) := by
  obtain ⟨turn, -, -, holds, phase, -⟩ := attempt_of_comes fresh comes
  obtain ⟨scene', leads, after⟩ := holds.led rfl (by rw [phase]; rfl)
  rw [phase] at leads
  exact ⟨turn + 1, scene', leads, after⟩

theorem Scene.Holds.comes (ends : EveryWaitEnds (within policy around job))
    (holds : (Scene.attempt number).Holds job (within policy around job turn)) :
    ∃ outcome, Comes (within policy around job) number outcome := by
  obtain ⟨later, -, holds, leaves⟩ := holds.leaving ends rfl
  have stands := holds.stands
  cases phase : (within policy around job later).drive.phase with
  | judging outcome => exact ⟨outcome, later, phase, holds.calls⟩
  | ready | reverting | reverted =>
      rw [phase] at stands
      cases stands with
      | attempt works => cases works
  | _ => simp [phase, Phase.leaves] at leaves

theorem Scene.Holds.closes {resolution : Resolution}
    (holds : scene.Holds job (within policy around job turn)) (calm : job.dropPanic = none)
    (last : scene.resolution? job = some resolution) :
    Closes (within policy around job) resolution (scene.made job) (scene.transitions job) := by
  refine ⟨turn, ?_, holds.made, holds.transitions⟩
  have same : (within policy around job turn).drive.job.dropPanic = none := by
    rw [holds.ofJob, calm]
  rw [SoloRun.result?, holds.resolution?_eq, last, Option.map_some, same]

theorem comes_one (fresh : job.attemptCount = 0) (ends : EveryWaitEnds (within policy around job)) :
    ∃ outcome, Comes (within policy around job) 1 outcome := by
  have start : Scene.start.Holds job (within policy around job 0) := .begin fresh .start .empty
  obtain ⟨later, phase, scene', leads, after⟩ := start.leads ends rfl
  cases leads
  exact after.comes ends

theorem comes_succ (fresh : job.attemptCount = 0) (ends : EveryWaitEnds (within policy around job))
    (comes : Comes (within policy around job) number outcome) (failure : outcome.isSuccess = false)
    (left : min number maxAttempts ≤ job.maxRetries) :
    ∃ outcome', Comes (within policy around job) (number + 1) outcome' := by
  obtain ⟨turn, scene', leads, after⟩ := led_of_comes fresh comes
  cases leads with
  | succeed _ success => simp [failure] at success
  | retry =>
      obtain ⟨later, phase, scene', leads, after⟩ := after.leads ends rfl
      cases leads
      exact after.comes ends
  | revert _ _ limited | fail _ _ limited => omega

theorem Scene.Holds.eq_attempt (holds : scene.Holds job (within policy around job turn))
    (phase : (within policy around job turn).drive.phase = .judging outcome)
    (calls : (within policy around job turn).drive.calls = number) : scene = .attempt number := by
  have busy : (within policy around job turn).drive.phase.works = true := by rw [phase]; rfl
  obtain ⟨before, rfl, -⟩ := holds.stands.works busy
  rw [← calls, holds.calls]
  rfl

theorem lt_of_later (fresh : job.attemptCount = 0) {later : Nat} {number' : Nat}
    (phase : (within policy around job turn).drive.phase = .judging outcome)
    (calls : (within policy around job turn).drive.calls = number)
    (phase' : (within policy around job later).drive.phase = .judging outcome')
    (calls' : (within policy around job later).drive.calls = number') (after : turn < later) :
    number < number' := by
  obtain ⟨scene, holds⟩ := Scene.exists_holds policy around fresh turn
  obtain rfl := holds.eq_attempt phase calls
  obtain ⟨scene', leads, holds⟩ := holds.led rfl (by rw [phase]; rfl)
  obtain ⟨more, rfl⟩ := Nat.exists_eq_add_of_lt after
  obtain ⟨last, holds, further⟩ := holds.onward more
  rw [Nat.add_right_comm] at holds
  obtain rfl := holds.eq_attempt phase' calls'
  have risen := leads.rank_lt
  rcases further with rfl | further <;> simp only [Scene.rank] at * <;> omega

theorem comes_unique (fresh : job.attemptCount = 0)
    (comes : Comes (within policy around job) number outcome)
    (comes' : Comes (within policy around job) number outcome') : outcome = outcome' := by
  obtain ⟨turn, phase, calls⟩ := comes
  obtain ⟨turn', phase', calls'⟩ := comes'
  rcases Nat.lt_trichotomy turn turn' with before | rfl | after
  · exact absurd (lt_of_later fresh phase calls phase' calls' before) (Nat.lt_irrefl _)
  · exact Phase.judging.inj (phase.symm.trans phase')
  · exact absurd (lt_of_later fresh phase' calls' phase calls after) (Nat.lt_irrefl _)

theorem fails_of_later (fresh : job.attemptCount = 0) {number' : Nat}
    (comes : Comes (within policy around job) number outcome)
    (comes' : Comes (within policy around job) number' outcome') (before : number < number') :
    outcome.isSuccess = false := by
  obtain ⟨turn, phase, calls⟩ := comes
  obtain ⟨turn', phase', calls'⟩ := comes'
  rcases Nat.lt_trichotomy turn turn' with onward | rfl | back
  · obtain ⟨scene, holds⟩ := Scene.exists_holds policy around fresh turn
    obtain rfl := holds.eq_attempt phase calls
    obtain ⟨scene', leads, after⟩ := holds.led rfl (by rw [phase]; rfl)
    rw [phase] at leads
    cases leads with
    | succeed =>
        -- A success is the last scene, so that no attempt would be judged after it.
        obtain ⟨more, rfl⟩ := Nat.exists_eq_add_of_lt onward
        have last := after.lasts rfl more
        rw [Nat.add_right_comm] at last
        cases last.eq_attempt phase' calls'
    | retry failure | revert failure | fail failure => exact failure
  · omega
  · exact absurd (lt_of_later fresh phase' calls' phase calls back) (Nat.lt_asymm before)

theorem comes_earlier (fresh : job.attemptCount = 0)
    (ends : EveryWaitEnds (within policy around job))
    (comes : Comes (within policy around job) number outcome) {other : Nat} (first : 1 ≤ other)
    (before : other < number) :
    ∃ outcome', Comes (within policy around job) other outcome' ∧ outcome'.isSuccess = false := by
  obtain ⟨-, fewer, rfl, -, -, -, left⟩ := attempt_of_comes fresh comes
  obtain ⟨other, rfl⟩ := Nat.exists_eq_add_of_le' first
  induction other with
  | zero =>
      obtain ⟨outcome', one⟩ := comes_one fresh ends
      exact ⟨outcome', one, fails_of_later fresh one comes before⟩
  | succ other ih =>
      obtain ⟨outcome', previous, failure⟩ := ih (by omega) (by omega)
      obtain ⟨outcome', next⟩ := comes_succ fresh ends previous failure (by omega)
      exact ⟨outcome', next, fails_of_later fresh next comes before⟩

theorem closes_of_success (fresh : job.attemptCount = 0) (calm : job.dropPanic = none)
    (comes : Comes (within policy around job) number outcome) (success : outcome.isSuccess = true) :
    Closes (within policy around job) ⟨job.key, .succeeded, min number maxAttempts, false⟩
      (attempts number) (job.tries number ++ [job.transition .running .succeeded]) := by
  obtain ⟨turn, scene', leads, after⟩ := led_of_comes fresh comes
  cases leads with
  | succeed => exact after.closes calm rfl
  | retry failure | revert failure | fail failure => simp [success] at failure

theorem closes_of_absent (fresh : job.attemptCount = 0) (calm : job.dropPanic = none)
    (limited : job.maxRetries < maxAttempts) (absent : job.compensator = none)
    (comes : Comes (within policy around job) (job.maxRetries + 1) outcome)
    (failure : outcome.isSuccess = false) :
    Closes (within policy around job) ⟨job.key, .abandoned, job.maxRetries + 1, false⟩
      (attempts (job.maxRetries + 1))
      (job.tries (job.maxRetries + 1) ++ [job.transition .running .abandoned]) := by
  have last : Scene.failure.resolution? job =
      some ⟨job.key, .abandoned, job.maxRetries + 1, false⟩ := by
    simp only [Scene.resolution?, Nat.min_eq_left limited]
  obtain ⟨turn, scene', leads, after⟩ := led_of_comes fresh comes
  cases leads with
  | succeed _ success => simp [failure] at success
  | retry _ left => omega
  | revert _ present => simp [Job.hasCompensator, absent] at present
  | fail => exact after.closes calm last

theorem closes_of_present {compensator : Compensator} (fresh : job.attemptCount = 0)
    (ends : EveryWaitEnds (within policy around job)) (calm : job.dropPanic = none)
    (limited : job.maxRetries < maxAttempts) (present : job.compensator = some compensator)
    (comes : Comes (within policy around job) (job.maxRetries + 1) outcome)
    (failure : outcome.isSuccess = false) :
    ∃ inspections, Closes (within policy around job)
      ⟨job.key, .abandoned, job.maxRetries + 1, true⟩
      (attempts (job.maxRetries + 1) ++ [.compensate outcome.failedCompletions inspections])
      (job.tries (job.maxRetries + 1) ++ [job.transition .running .compensating] ++
        transitionsOf (compensator.remark outcome.failures.length) ++
        [job.transition .compensating .abandoned]) := by
  have last (inspections : List Inspection) : (Scene.undone outcome inspections).resolution? job =
      some ⟨job.key, .abandoned, job.maxRetries + 1, true⟩ := by
    simp only [Scene.resolution?, Nat.min_eq_left limited]
  have remarks : Scene.remarks job outcome =
      transitionsOf (compensator.remark outcome.failures.length) := by
    rw [Scene.remarks, present]
    rfl
  obtain ⟨turn, scene', leads, after⟩ := led_of_comes fresh comes
  cases leads with
  | succeed _ success => simp [failure] at success
  | retry _ left => omega
  | fail _ absent => simp [Job.hasCompensator, present] at absent
  | revert =>
      obtain ⟨turn, phase, scene', leads, after⟩ := after.leads ends rfl
      cases leads with
      | call outcome inspections =>
          obtain ⟨turn, phase, scene', leads, after⟩ := after.leads ends rfl
          cases leads with
          | close => exact ⟨inspections, remarks ▸ after.closes calm (last inspections)⟩

theorem mem_attempts {call : JobCall} {count : Nat} (made : call ∈ attempts count) :
    ∃ number, call = .attempt number := by
  obtain ⟨number, -, rfl⟩ := List.mem_map.mp made
  exact ⟨number + 1, rfl⟩

theorem attempts_of_unlimited (fresh : job.attemptCount = 0)
    (allowed : job.maxRetries = maxAttempts) (turn : Nat) :
    (∀ call ∈ (within policy around job turn).made, ∃ number, call = .attempt number) ∧
      ∀ resolution, (within policy around job turn).drive.resolution? = some resolution →
        resolution.state = .succeeded ∧ resolution.compensated = false := by
  obtain ⟨scene, holds⟩ := Scene.exists_holds policy around fresh turn
  have stands := holds.stands
  rw [holds.resolution?_eq]
  simp only [← Array.mem_toList_iff, holds.made]
  generalize (within policy around job turn).drive.phase = phase at stands
  cases stands with
  | undo _ _ _ limited | undone _ _ limited | failure limited | revert _ _ limited => omega
  | success number =>
      refine ⟨fun call => mem_attempts, fun resolution last => ?_⟩
      obtain rfl := Option.some.inj last
      exact ⟨rfl, rfl⟩
  | _ => exact ⟨fun call => mem_attempts, fun resolution last => nomatch last⟩

/-- A fresh job is driven by the protocol, whatever the surroundings do, if all its waits end and
letting go of it does not panic. -/
theorem protocol_of_within (fresh : job.attemptCount = 0) (countable : job.maxRetries ≤ maxAttempts)
    (calm : job.dropPanic = none) (ends : EveryWaitEnds (within policy around job)) :
    Protocol job (within policy around job) where
  begins := comes_one fresh ends
  reports comes := by
    obtain ⟨-, -, -, -, -, reports, -⟩ := attempt_of_comes fresh comes
    exact reports
  single := comes_unique fresh
  earlier comes other first before := comes_earlier fresh ends comes first before
  bounded comes := by
    obtain ⟨-, before, rfl, -, -, -, left⟩ := attempt_of_comes fresh comes
    omega
  retries comes failure left := comes_succ fresh ends comes failure (by omega)
  succeeds := closes_of_success fresh calm
  abandons := closes_of_absent fresh calm
  compensates := closes_of_present fresh ends calm
  unlimited := attempts_of_unlimited fresh

theorem everyWaitEnds_of_ended (fresh : job.attemptCount = 0)
    (ended : (within policy around job turn).drive.resolution?.isSome = true) :
    EveryWaitEnds (within policy around job) := by
  obtain ⟨scene, holds⟩ := Scene.exists_holds policy around fresh turn
  obtain ⟨resolution, last⟩ := Option.isSome_iff_exists.mp ended
  rw [holds.resolution?_eq] at last
  intro now _
  have later := holds.lasts last now
  have phase := Drive.phase_of_resolution? (later.resolution?_eq.trans last)
  exact ⟨turn + now, Nat.le_add_left now turn, by rw [phase]; rfl⟩

end Within

/-- The first attempt panics, of the writes of the second one fails, and so does what the compensator
writes. -/
def unlucky : Job :=
  let started := fun
    | 1 => .panics (.text "boom")
    | _ => .writes [.succeeded, .gate "write", .failed ⟨["refused"]⟩]
  ((Job.new "A" started).withMaxRetries 1).withCompensator
    ⟨fun _ => .writes [.gate "undo"], true, fun _ => []⟩

/-- Time passes, and what has been written by hand fails in some turns. -/
def unfriendly : Surroundings := fun turn (now, cs) =>
  let name := if turn < 9 then "write" else "undo"
  (now + 1, if turn % 4 = 3 then (cs.resolve? name (.failure .dropped)).getD cs else cs)

theorem protocol_of_unlucky :
    unlucky.attemptCount = 0 ∧ unlucky.maxRetries ≤ maxAttempts ∧ unlucky.dropPanic = none ∧
      EveryWaitEnds (within ⟨none, some ⟨2⟩⟩ unfriendly unlucky) ∧
      Protocol unlucky (within ⟨none, some ⟨2⟩⟩ unfriendly unlucky) := by
  have ended : (within ⟨none, some ⟨2⟩⟩ unfriendly unlucky 20).drive.resolution?.isSome = true := by
    decide +kernel
  have ends := everyWaitEnds_of_ended rfl ended
  have countable : unlucky.maxRetries ≤ maxAttempts := by decide
  exact ⟨rfl, countable, rfl, ends, protocol_of_within rfl countable rfl ends⟩

end KeyedJobs
