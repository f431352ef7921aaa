import KeyedJobs.Proofs.Completion.Alike
import KeyedJobs.Proofs.Retry.Alone

/-! # Failing at once and failing later

A call of the action may fail at once, or it may hand back a single completion that fails in the same
way. Until a call fails, a drive does the same with either action. When one fails, both drives get a
completion for it under the same number, and this is what a compensator is given.
-/

namespace KeyedJobs

/-- Instead of failing at once, the call hands back a single completion that fails in the same way,
perhaps after a sleep. Of a panic the text remains. -/
inductive Call.Defers (sleeps : Option Duration → Prop) : Call → Call → Prop where
  | fails (error : ErrorChain) : Defers sleeps (.fails error) (.writes [.failed error])
  | panics {panic panic' : Panic} {sleep : Option Duration}
      (same : panic'.message = panic.message) (allowed : sleeps sleep) :
      Defers sleeps (.panics panic) (.writes [.task sleep (.panics panic')])

/-- Some of the attempts, and perhaps all or none, defer their failures. -/
def Defers (sleeps : Option Duration → Prop) (action action' : Nat → Call) : Prop :=
  ∀ number, action' number = action number ∨ (action number).Defers sleeps (action' number)

/-- A completion that sleeps for so long wakes, and is not given up before. -/
def RetryPolicy.Outlasts (policy : RetryPolicy) (sleep : Option Duration) : Prop :=
  ∀ pause, sleep = some pause → pause.ends = true ∧
    ∀ limit, policy.completionTimeout = some limit → pause.nanoseconds ≤ limit.nanoseconds

theorem RetryPolicy.outlasts_of_none {policy : RetryPolicy} {sleep : Option Duration}
    (prompt : sleep = none) : policy.Outlasts sleep := by
  intro pause given
  cases prompt.symm.trans given

namespace Job

/-- The job with another action. -/
def acting (job : Job) (action : Nat → Call) : Job :=
  { job with action }

/-- Some call of the job hands back the completion. -/
def Mentions (job : Job) (id : CompletionId) : Prop :=
  (∃ number, .existing id ∈ (job.action number).started) ∨
    ∃ compensator failed, job.compensator = some compensator ∧
      .existing id ∈ (compensator.respond failed).started

end Job

/-- The same call, whatever a compensator sees of the completions that it is given. -/
inductive JobCall.Alike : JobCall → JobCall → Prop where
  | attempt (number : Nat) : Alike (.attempt number) (.attempt number)
  | compensate (failed : List CompletionId) (inspections inspections' : List Inspection) :
      Alike (.compensate failed inspections) (.compensate failed inspections')

/-- The phase when everything comes later by a span. -/
def Phase.later (span : Nat) : Phase → Phase
  | .collecting waiting => .collecting (waiting.later span)
  | .revertCollecting waiting => .revertCollecting (waiting.later span)
  | .pausing due => .pausing (due + span)
  | phase => phase

/-- Of a completion that fails when it is polled for the first time, or after a sleep from then on. -/
inductive Completion.Impends (sleeps : Option Duration → Prop) (error : CompletionError) :
    Completion → Prop where
  | known : Impends sleeps error (.unresolved (.known (.failure error)))
  | panics {panic : Panic} {sleep : Option Duration} (same : error = .ofPanic panic)
      (allowed : sleeps sleep) : Impends sleeps error (.unresolved (.task sleep none (.panics panic)))

theorem Completion.Impends.standsFor {sleeps : Option Duration → Prop} {error : CompletionError}
    {completion : Completion} (impends : completion.Impends sleeps error) :
    completion.StandsFor error := by
  cases impends with
  | known => exact .tells .known
  | panics same => exact .panics same _ _

namespace Drive

/-- The drive with another action for its job, when everything comes later by a span. -/
def acting (d : Drive) (action : Nat → Call) (span : Nat) : Drive :=
  { d with job := d.job.acting action, phase := d.phase.later span }

/-- The completions that the drive waits for. -/
def awaits (d : Drive) : List CompletionId :=
  match d.phase with
  | .launched writes | .revertLaunched writes => writes
  | .collecting waiting | .revertCollecting waiting => waiting.slots.map (·.completion)
  | _ => []

/-- A step and the one with the other action have made the same of stores that are alike. -/
structure Step.Matches (action : Nat → Call) (diff : Difference) (taken taken' : Step) : Prop where
  drive : taken'.drive = taken.drive.acting action diff.span
  log : taken'.log = taken.log
  made : List.Forall₂ JobCall.Alike taken.made taken'.made
  completions : taken.completions.Alike diff taken'.completions
  awaits : ∀ id ∈ taken.drive.awaits, diff.Spares id

variable {policy : RetryPolicy} {now : Instant} {cs cs' : Completions} {d : Drive}
  {sleeps : Option Duration → Prop} {action : Nat → Call} {diff : Difference}
  {waiting : Aggregation} {error : CompletionError}

theorem collect_matches (alike : cs.Alike diff cs')
    (spared : ∀ id ∈ waiting.slots.map (·.completion), diff.Spares id) :
    Step.Matches action diff (d.collect (waiting.poll now cs).1 (waiting.poll now cs).2)
      ((d.acting action diff.span).collect
        ((waiting.later diff.span).poll (now + diff.span) cs').1
        ((waiting.later diff.span).poll (now + diff.span) cs').2) := by
  obtain ⟨same, later⟩ := Aggregation.poll_alike alike spared now
  rw [same]
  generalize polled : (waiting.poll now cs).1 = reached
  have complete : (reached.later diff.span).isComplete = reached.isComplete := rfl
  refine ⟨?_, rfl, .nil, later, ?_⟩
  · unfold collect
    rw [complete]
    cases reached.isComplete <;> rfl
  · unfold collect awaits
    intro id member
    by_cases complete : reached.isComplete = true
    · simp [complete] at member
    · simp only [complete, Bool.false_eq_true, if_false] at member
      rw [← polled, Aggregation.poll, Aggregation.completions_pollSlots] at member
      exact spared id member

theorem collectRevert_matches (alike : cs.Alike diff cs')
    (spared : ∀ id ∈ waiting.slots.map (·.completion), diff.Spares id) :
    Step.Matches action diff (d.collectRevert (waiting.poll now cs).1 (waiting.poll now cs).2)
      ((d.acting action diff.span).collectRevert
        ((waiting.later diff.span).poll (now + diff.span) cs').1
        ((waiting.later diff.span).poll (now + diff.span) cs').2) := by
  obtain ⟨same, later⟩ := Aggregation.poll_alike alike spared now
  rw [same]
  have complete : ((waiting.poll now cs).1.later diff.span).isComplete =
      (waiting.poll now cs).1.isComplete := rfl
  unfold collectRevert
  rw [complete]
  split
  · exact ⟨rfl, rfl, .nil, later, by simp [closeRevert, awaits]⟩
  · refine ⟨rfl, rfl, .nil, later, ?_⟩
    simp only [awaits, Aggregation.poll, Aggregation.completions_pollSlots]
    exact spared

theorem judge_matches (alike : cs.Alike diff cs') (outcome : Outcome) :
    Step.Matches action diff (d.judge policy now cs outcome)
      ((d.acting action diff.span).judge policy (now + diff.span) cs' outcome) := by
  have same : Decision.afterAttempt outcome.isSuccess
      (d.acting action diff.span).job.attemptCount (d.acting action diff.span).job.maxRetries
      (d.acting action diff.span).job.hasCompensator =
        Decision.afterAttempt outcome.isSuccess d.job.attemptCount d.job.maxRetries
          d.job.hasCompensator := rfl
  unfold judge
  dsimp only
  rw [same]
  split
  · exact ⟨rfl, rfl, .nil, alike, by simp [finish, awaits]⟩
  · cases policy.backoff with
    | none => exact ⟨rfl, rfl, .nil, alike, by simp [awaits]⟩
    | some pause =>
        have due : (now + diff.span).after pause = now.after pause + diff.span :=
          Nat.add_right_comm now diff.span pause.nanoseconds
        exact ⟨by simp only [due]; rfl, rfl, .nil, alike, by simp [awaits]⟩
  · exact ⟨rfl, rfl, .nil, alike, by simp [awaits]⟩
  · exact ⟨rfl, rfl, .nil, alike, by simp [finish, awaits]⟩

theorem revert_matches (alike : cs.Alike diff cs')
    (mentions : ∀ id, d.job.Mentions id → diff.Spares id) (outcome : Outcome) :
    Step.Matches action diff (d.revert now cs outcome)
      ((d.acting action diff.span).revert (now + diff.span) cs' outcome) := by
  have same : (d.acting action diff.span).job.compensator = d.job.compensator := rfl
  unfold revert
  rw [same]
  cases present : d.job.compensator with
  | none => exact ⟨rfl, rfl, .nil, alike, by simp [awaits]⟩
  | some compensator =>
      have inspected : Completions.Alike diff
          (if compensator.inspects then cs.inspectEach now outcome.failedCompletions
            else ([], cs)).2
          (if compensator.inspects then
            cs'.inspectEach (now + diff.span) outcome.failedCompletions else ([], cs')).2 := by
        cases compensator.inspects with
        | false => exact alike
        | true => exact alike.inspectEach now outcome.failedCompletions
      have made (inspections inspections' : List Inspection) : List.Forall₂ JobCall.Alike
          [.compensate outcome.failedCompletions inspections]
          [.compensate outcome.failedCompletions inspections'] :=
        .cons (.compensate _ inspections inspections') .nil
      dsimp only
      cases call : compensator.respond outcome.failedCompletions with
      | writes started =>
          have spared : ∀ id, .existing id ∈ started → diff.Spares id := by
            intro id member
            exact mentions id (.inr ⟨compensator, _, present, by rw [call]; exact member⟩)
          obtain ⟨ids, handed, later⟩ := inspected.startEach spared
          dsimp only
          rw [ids]
          exact ⟨rfl, rfl, made _ _, later, handed⟩
      | fails error => exact ⟨rfl, rfl, made _ _, inspected, by simp [awaits]⟩
      | panics panic => exact ⟨rfl, rfl, made _ _, inspected, by simp [awaits]⟩

theorem attempt_matches (defers : Defers sleeps d.job.action action) (alike : cs.Alike diff cs')
    (mentions : ∀ id, d.job.Mentions id → diff.Spares id) {started : List Write}
    (call : d.job.action (d.calls + 1) = .writes started) :
    Step.Matches action diff (d.attempt cs) ((d.acting action diff.span).attempt cs') := by
  have same : (d.acting action diff.span).job.action ((d.acting action diff.span).calls + 1) =
      .writes started := by
    rcases defers (d.calls + 1) with same | deferred
    · exact same.trans call
    · rw [call] at deferred
      cases deferred
  have spared : ∀ id, .existing id ∈ started → diff.Spares id := by
    intro id member
    exact mentions id (.inl ⟨d.calls + 1, by rw [call]; exact member⟩)
  obtain ⟨ids, handed, later⟩ := alike.startEach spared
  simp only [attempt, call, same, ids]
  exact ⟨rfl, rfl, .cons (.attempt _) .nil, later, handed⟩

/-- The drives do the same with both actions, unless a call fails. -/
theorem step_matches (defers : Defers sleeps d.job.action action) (alike : cs.Alike diff cs')
    (mentions : d.phase.hasReverted = false → ∀ id, d.job.Mentions id → diff.Spares id)
    (awaits : ∀ id ∈ d.awaits, diff.Spares id)
    (returns : d.phase = .ready → ∃ started, d.job.action (d.calls + 1) = .writes started) :
    Step.Matches action diff (d.step policy now cs)
      ((d.acting action diff.span).step policy (now + diff.span) cs') := by
  have same : (d.acting action diff.span).phase = d.phase.later diff.span := rfl
  unfold Drive.awaits at awaits
  unfold step
  rw [same]
  cases phase : d.phase with
  | ready =>
      obtain ⟨started, call⟩ := returns phase
      exact attempt_matches defers alike (mentions (by rw [phase]; rfl)) call
  | launched writes =>
      rw [phase] at awaits
      simp only [Phase.later, Aggregation.begin_later]
      exact collect_matches alike (by rwa [completions_begin])
  | collecting waiting =>
      rw [phase] at awaits
      exact collect_matches alike awaits
  | judging outcome => exact judge_matches alike outcome
  | pausing due => exact ⟨rfl, rfl, .nil, alike, by simp [Drive.awaits]⟩
  | reverting outcome => exact revert_matches alike (mentions (by rw [phase]; rfl)) outcome
  | revertLaunched writes =>
      rw [phase] at awaits
      simp only [Phase.later, Aggregation.begin_later]
      exact collectRevert_matches alike (by rwa [completions_begin])
  | revertCollecting waiting =>
      rw [phase] at awaits
      exact collectRevert_matches alike awaits
  | reverted => exact ⟨rfl, rfl, .nil, alike, by simp [finish, Drive.awaits]⟩
  | ended resolution => exact ⟨rfl, rfl, .nil, alike, by simp [Drive.awaits, phase]⟩

theorem resolution?_acting (d : Drive) (action : Nat → Call) (span : Nat) :
    (d.acting action span).resolution? = d.resolution? := by
  have same : (d.acting action span).phase = d.phase.later span := rfl
  unfold resolution?
  rw [same]
  cases d.phase <;> rfl

theorem canStep_acting (alike : cs.Alike diff cs') (awaits : ∀ id ∈ d.awaits, diff.Spares id) :
    (d.acting action diff.span).canStep (now + diff.span) cs' = d.canStep now cs := by
  have same : (d.acting action diff.span).phase = d.phase.later diff.span := rfl
  unfold Drive.awaits at awaits
  unfold canStep
  rw [same]
  cases phase : d.phase with
  | collecting waiting | revertCollecting waiting =>
      rw [phase] at awaits
      exact Aggregation.isReady_alike alike awaits now
  | pausing due => simp [Phase.later]
  | _ => rfl

theorem wakeAt?_acting (alike : cs.Alike diff cs') (awaits : ∀ id ∈ d.awaits, diff.Spares id) :
    (d.acting action diff.span).wakeAt? cs' = (d.wakeAt? cs).map (· + diff.span) := by
  have same : (d.acting action diff.span).phase = d.phase.later diff.span := rfl
  unfold Drive.awaits at awaits
  unfold wakeAt?
  rw [same]
  cases phase : d.phase with
  | collecting waiting | revertCollecting waiting =>
      rw [phase] at awaits
      exact Aggregation.wakeAt?_alike alike awaits
  | _ => rfl

/-- A call that fails at once is stood for by a completion with its error. -/
theorem step_fails (policy : RetryPolicy) (now : Instant) (cs : Completions)
    (phase : d.phase = .ready) (fails : (d.job.action (d.calls + 1)).error? = some error) :
    d.step policy now cs =
      ⟨{ d.counted with phase := .judging ⟨1, [⟨cs.entries.size, error⟩]⟩ },
        (cs.add (.unresolved (.known (.failure error)))).2, [d.transitionLine .running],
        [.attempt (d.calls + 1)]⟩ := by
  simp only [step, phase, attempt]
  cases call : d.job.action (d.calls + 1) with
  | writes started => simp [call, Call.error?] at fails
  | fails failed =>
      obtain rfl : .failed failed = error := by simpa [call, Call.error?] using fails
      rfl
  | panics panic =>
      obtain rfl : .ofPanic panic = error := by simpa [call, Call.error?] using fails
      rfl

/-- A call that defers its failure hands back a completion that has yet to fail. -/
theorem step_defers (policy : RetryPolicy) (now : Instant) (cs : Completions) (span : Nat)
    (phase : d.phase = .ready) (fails : (d.job.action (d.calls + 1)).error? = some error)
    (deferred : (d.job.action (d.calls + 1)).Defers sleeps (action (d.calls + 1))) :
    ∃ completion : Completion, completion.Impends sleeps error ∧
      (d.acting action span).step policy now cs =
        ⟨{ (d.acting action span).counted with phase := .launched [cs.entries.size] },
          (cs.add completion).2, [d.transitionLine .running], [.attempt (d.calls + 1)]⟩ := by
  have same : (d.acting action span).phase = .ready := congrArg (Phase.later span) phase
  have next : (d.acting action span).job.action ((d.acting action span).calls + 1) =
      action (d.calls + 1) := rfl
  simp only [step, same, attempt, next]
  generalize action (d.calls + 1) = given at deferred ⊢
  generalize d.job.action (d.calls + 1) = call at deferred fails
  cases deferred with
  | fails failed =>
      obtain rfl : .failed failed = error := Option.some.inj fails
      exact ⟨_, .known, rfl⟩
  | @panics panic panic' sleep text allowed =>
      obtain rfl : .ofPanic panic = error := Option.some.inj fails
      exact ⟨_, .panics (congrArg CompletionError.panicked text.symm) allowed, rfl⟩

section

variable {limit : Option TimeLimit} {id : CompletionId} {pause : Duration} {due : Instant}
  {ending : TaskEnding}

theorem canStep_asleep (phase : d.phase = .collecting ⟨limit, [⟨id, none⟩]⟩)
    (entry : cs.entries[id]? = some (.unresolved (.task (some pause) (some due) ending)))
    (intime : ∀ span ∈ limit, due ≤ span.expiresAt) (now : Instant) :
    d.canStep now cs = true ↔ due ≤ now := by
  have ends : ending.poll ≠ .pending := by cases ending <;> simp [TaskEnding.poll]
  have ready : cs.isReady now id = true ↔ due ≤ now := by
    rw [Completions.isReady, entry]
    by_cases awake : due ≤ now <;> simp [Origin.poll, awake, ends]
  have expired : limit.any (·.isOver now) = true → due ≤ now := by
    cases limit with
    | none => simp
    | some span =>
        intro expired
        exact Nat.le_trans (intime span rfl) (of_decide_eq_true expired)
  simp only [canStep, phase, Aggregation.isReady, List.any_cons, List.any_nil, Option.isNone_none,
    Bool.true_and, Bool.or_false, Bool.or_eq_true, ready]
  exact or_iff_left_of_imp expired

theorem wakeAt?_asleep (phase : d.phase = .collecting ⟨limit, [⟨id, none⟩]⟩)
    (entry : cs.entries[id]? = some (.unresolved (.task (some pause) (some due) ending)))
    (intime : ∀ span ∈ limit, due ≤ span.expiresAt) : d.wakeAt? cs = some due := by
  have sleeps : cs.wakeAt? id = some due := by rw [Completions.wakeAt?, entry]
  simp only [wakeAt?, phase, Aggregation.wakeAt?]
  rw [List.min?_eq_some_iff]
  cases limit with
  | none => simp [sleeps]
  | some span => simpa [sleeps] using intime span rfl

end

end Drive

/-- If the call has failed, then these are the one completion that stands for it. -/
def Call.StoodFor (call : Call) (proxies : List Failure) (ids : List CompletionId) : Prop :=
  ∀ error, call.error? = some error →
    ∃ failure ∈ proxies, failure.error = error ∧ ids = [failure.completion]

/-- None of the calls is that of a compensator. -/
def Uncompensated (made : List JobCall) : Prop :=
  ∀ failed inspections, .compensate failed inspections ∉ made

/-- What the drive knows of the last call of the action: while its completions are awaited it has not
failed, and otherwise its proxy has failed, and it is given to the compensator. -/
def Drive.Notes (job : Job) (proxies : List Failure) (made : List JobCall) (d : Drive) : Prop :=
  let call := job.action d.calls
  match d.phase with
  | .ready | .pausing _ => Uncompensated made
  | .launched _ | .collecting _ => Uncompensated made ∧ call.error? = none
  | .judging outcome | .reverting outcome =>
      Uncompensated made ∧ call.StoodFor proxies outcome.failedCompletions
  | .revertLaunched _ | .revertCollecting _ | .reverted | .ended _ =>
      ∀ failed inspections, .compensate failed inspections ∈ made → call.StoodFor proxies failed

section

variable {policy : RetryPolicy} {now : Instant} {cs cs' : Completions} {job : Job} {d d' : Drive}
  {proxies proxies' : List Failure} {made more : List JobCall} {waiting : Aggregation}

theorem Call.StoodFor.mono {call : Call} {ids : List CompletionId} (stood : call.StoodFor proxies ids)
    (wider : ∀ failure ∈ proxies, failure ∈ proxies') : call.StoodFor proxies' ids := by
  intro error fails
  obtain ⟨failure, member, rest⟩ := stood error fails
  exact ⟨failure, wider failure member, rest⟩

theorem Call.StoodFor.of_returned {call : Call} {ids : List CompletionId}
    (returned : call.error? = none) : call.StoodFor proxies ids := by
  intro error fails
  rw [returned] at fails
  cases fails

theorem Uncompensated.attempt (uncompensated : Uncompensated made) (number : Nat) :
    Uncompensated (made ++ [.attempt number]) := by
  intro failed inspections member
  rcases List.mem_append.mp member with before | here
  · exact uncompensated failed inspections before
  · cases List.mem_singleton.mp here

namespace Drive.Notes

theorem begin (job : Job) : (Drive.begin job).Notes job [] [] :=
  fun _ _ member => by cases member

theorem mono (notes : d.Notes job proxies made) (wider : ∀ failure ∈ proxies, failure ∈ proxies') :
    d.Notes job proxies' made := by
  unfold Notes at notes ⊢
  cases phase : d.phase with
  | ready | pausing due | launched writes | collecting waiting =>
      rw [phase] at notes
      exact notes
  | judging outcome | reverting outcome =>
      rw [phase] at notes
      exact ⟨notes.1, notes.2.mono wider⟩
  | revertLaunched | revertCollecting | reverted | ended =>
      rw [phase] at notes
      exact fun failed inspections member => (notes failed inspections member).mono wider

theorem handed (notes : d.Notes job proxies made) {failed : List CompletionId}
    {inspections : List Inspection} (member : .compensate failed inspections ∈ made) :
    (job.action d.calls).StoodFor proxies failed := by
  unfold Notes at notes
  cases phase : d.phase with
  | ready | pausing due =>
      rw [phase] at notes
      exact absurd member (notes failed inspections)
  | launched writes | collecting waiting | judging outcome | reverting outcome =>
      rw [phase] at notes
      exact absurd member (notes.1 failed inspections)
  | revertLaunched | revertCollecting | reverted | ended =>
      rw [phase] at notes
      exact notes failed inspections member

theorem of_collects (notes : d.Notes job proxies made) (waits : d.collects policy now = some waiting) :
    Uncompensated made ∧ (job.action d.calls).error? = none := by
  unfold Drive.collects at waits
  unfold Notes at notes
  cases phase : d.phase <;> simp_all

theorem of_driveStep (notes : d.Notes job proxies made) (ofJob : d.OfJob job)
    (fresh : ∀ error, d.phase = .ready → (job.action (d.calls + 1)).error? = some error →
      ⟨cs.entries.size, error⟩ ∈ proxies)
    (step : DriveStep policy now cs d d' cs' more) : d'.Notes job proxies (made ++ more) := by
  have place := notes
  unfold Notes at place
  cases step with
  | launch phase call =>
      rw [ofJob.action] at call
      rw [phase] at place
      exact ⟨place.attempt _, congrArg Call.error? call⟩
  | @fail error outcome _ phase call stands =>
      rw [ofJob.action] at call
      rw [phase] at place
      obtain ⟨rfl, -⟩ := Prod.mk.inj stands
      refine ⟨place.attempt _, ?_⟩
      intro other fails
      obtain rfl : error = other := Option.some.inj (call.symm.trans fails)
      exact ⟨_, fresh error phase call, rfl, rfl⟩
  | wait waits =>
      rw [List.append_nil]
      exact notes.of_collects waits
  | gather waits =>
      rw [List.append_nil]
      obtain ⟨uncompensated, returned⟩ := notes.of_collects waits
      exact ⟨uncompensated, .of_returned returned⟩
  | succeed | abandon | revertGather | revertWait | skipRevert | close =>
      rw [List.append_nil]
      exact fun failed inspections member => notes.handed member
  | retry phase _ _ next =>
      rw [List.append_nil]
      rw [phase] at place
      subst next
      unfold Notes
      cases policy.backoff <;> exact place.1
  | compensate phase =>
      rw [List.append_nil]
      rw [phase] at place
      exact place
  | goOn phase =>
      rw [List.append_nil]
      rw [phase] at place
      exact place
  | revert phase | revertFail phase =>
      rw [phase] at place
      intro failed inspections member
      rcases List.mem_append.mp member with before | here
      · exact absurd before (place.1 failed inspections)
      · cases List.mem_singleton.mp here
        exact place.2

end Drive.Notes

end

end KeyedJobs
