import KeyedJobs.Proofs.Retry.Deferral

/-! # Deferred failures make no difference

A run of a job and one of the job that defers failures show the same as they go on. When a call fails,
the second run falls behind: it has yet to wait for the completion that it was handed instead. Once
that has failed, the two are abreast again, perhaps some time apart.
-/

namespace KeyedJobs

/-- What may happen around a drive. -/
inductive Happening where
  | passes (now : Instant)
  | sends (gate : String) (result : CompletionResult)

/-- What happens when everything comes later by a span. -/
def Happening.later (span : Nat) : Happening → Happening
  | .passes now => .passes (now + span)
  | .sends gate result => .sends gate result

/-- What is seen of a run and of what happens around it. -/
inductive Occurrence where
  | around (happening : Happening)
  | logged (line : LogLine)
  | called (call : JobCall)

namespace Occurrence

/-- The same, whatever compensators see of completions. -/
inductive Alike : Occurrence → Occurrence → Prop where
  | around (happening : Happening) : Alike (.around happening) (.around happening)
  | logged (line : LogLine) : Alike (.logged line) (.logged line)
  | called {call call' : JobCall} (alike : call.Alike call') : Alike (.called call) (.called call')

end Occurrence

namespace SoloRun

/-- The run when this has happened around it. -/
def meet (run : SoloRun) : Happening → SoloRun
  | .passes now => { run with now }
  | .sends gate result =>
      { run with completions := (run.completions.resolve? gate result).getD run.completions }

/-- What is seen of the next step. -/
def shows (policy : RetryPolicy) (run : SoloRun) : List Occurrence :=
  let taken := run.drive.step policy run.now run.completions
  taken.log.map .logged ++ taken.made.map .called

end SoloRun

/-- A run that takes its steps when they are possible has gone this course since its origin. -/
inductive Courses (policy : RetryPolicy) (origin : SoloRun) : List Occurrence → SoloRun → Prop where
  | begin : Courses policy origin [] origin
  | step {course : List Occurrence} {run : SoloRun} (courses : Courses policy origin course run)
      (possible : run.drive.canStep run.now run.completions = true) :
      Courses policy origin (course ++ run.shows policy) (run.step policy)
  | meet {course : List Occurrence} {run : SoloRun} (courses : Courses policy origin course run)
      (happening : Happening) :
      Courses policy origin (course ++ [.around happening]) (run.meet happening)

/-- Two runs have shown the same, and their stores are alike. The job hands back nothing but what is
the same in both. -/
structure Beside (job : Job) (diff : Difference) (run run' : SoloRun) : Prop where
  now : run'.now = run.now + diff.span
  log : run'.log = run.log
  made : List.Forall₂ JobCall.Alike run.made.toList run'.made.toList
  alike : run.completions.Alike diff run'.completions
  mentions : ∀ id, job.Mentions id → diff.Spares id
  ofJob : run.drive.OfJob job
  notes : run.drive.Notes job diff.proxies run.made.toList

/-- The run that defers failures has come as far as the other one. -/
structure Abreast (job : Job) (action : Nat → Call) (diff : Difference) (run run' : SoloRun) :
    Prop extends Beside job diff run run' where
  drive : run'.drive = run.drive.acting action diff.span
  awaits : ∀ id ∈ run.drive.awaits, diff.Spares id

/-- The proxy of a failed call has been handed back, and it has not been polled yet. -/
inductive Launched (sleeps : Option Duration → Prop) (failure : Failure) :
    Phase → Completion → Prop where
  | intro {completion : Completion} (impends : completion.Impends sleeps failure.error) :
      Launched sleeps failure (.launched [failure.completion]) completion

/-- The task of the proxy is asleep. -/
inductive Asleep (sleeps : Option Duration → Prop) (failure : Failure) :
    Phase → Completion → Prop where
  | intro {limit : Option TimeLimit} {pause : Duration} {due : Instant} {panic : Panic}
      (same : failure.error = .ofPanic panic) (allowed : sleeps (some pause))
      (intime : ∀ span ∈ limit, due ≤ span.expiresAt) :
      Asleep sleeps failure (.collecting ⟨limit, [⟨failure.completion, none⟩]⟩)
        (.unresolved (.task (some pause) (some due) (.panics panic)))

/-- A call has failed, and the run that defers its failure is still at this place. -/
structure Behind (place : Failure → Phase → Completion → Prop) (job : Job) (action : Nat → Call)
    (diff : Difference) (run run' : SoloRun) : Prop extends Beside job diff run run' where
  deferred : ∃ failure ∈ diff.proxies, run.drive.phase = .judging ⟨1, [failure]⟩ ∧
    ∃ phase, run'.drive = { run.drive.acting action diff.span with phase } ∧
      run'.completions.Has failure.completion (place failure phase)

section

variable {policy : RetryPolicy} {job : Job} {action : Nat → Call} {diff : Difference}
  {sleeps : Option Duration → Prop} {place : Failure → Phase → Completion → Prop}
  {run run' : SoloRun}

theorem Beside.meet (beside : Beside job diff run run') (happening : Happening) :
    Beside job diff (run.meet happening) (run'.meet (happening.later diff.span)) := by
  cases happening with
  | passes now => exact { beside with now := rfl }
  | sends gate result => exact { beside with alike := beside.alike.resolve gate result }

theorem Abreast.meet (abreast : Abreast job action diff run run') (happening : Happening) :
    Abreast job action diff (run.meet happening) (run'.meet (happening.later diff.span)) where
  toBeside := abreast.toBeside.meet happening
  drive := by cases happening <;> exact abreast.drive
  awaits := by cases happening <;> exact abreast.awaits

theorem Behind.meet (behind : Behind place job action diff run run') (happening : Happening)
    (unsent : ∀ failure phase, ¬ place failure phase (.unresolved (.manual none))) :
    Behind place job action diff (run.meet happening) (run'.meet (happening.later diff.span)) where
  toBeside := behind.toBeside.meet happening
  deferred := by
    obtain ⟨failure, member, judging, phase, there, has⟩ := behind.deferred
    refine ⟨failure, member, ?_⟩
    cases happening with
    | passes now => exact ⟨judging, phase, there, has⟩
    | sends gate result => exact ⟨judging, phase, there, has.resolve (unsent failure phase) gate result⟩

theorem Behind.delay (behind : Behind place job action diff run run')
    (unmentioned : ∀ id, ¬ job.Mentions id) (pause : Nat) :
    Behind place job action (diff.delayed pause run.completions.entries.size) run
      { run' with now := run'.now + pause } where
  now := by rw [behind.now]; exact Nat.add_assoc _ _ _
  log := behind.log
  made := behind.made
  alike := behind.alike.delayed pause
  mentions id mentioned := absurd mentioned (unmentioned id)
  ofJob := behind.ofJob
  notes := behind.notes
  deferred := behind.deferred

theorem SoloRun.step_single {limit : Option TimeLimit} {id : CompletionId}
    (waits : run.drive.collects policy run.now = some ⟨limit, [⟨id, none⟩]⟩) :
    run.step policy = { run with
      completions := (run.completions.poll run.now id).2
      drive := (run.drive.collect
        ⟨limit, [⟨id, (run.completions.poll run.now id).1.result? run.now limit⟩]⟩
        (run.completions.poll run.now id).2).drive } := by
  have took : run.drive.step policy run.now run.completions = run.drive.collect
      ⟨limit, [⟨id, (run.completions.poll run.now id).1.result? run.now limit⟩]⟩
      (run.completions.poll run.now id).2 := by
    unfold Drive.collects at waits
    unfold Drive.step
    cases phase : run.drive.phase with
    | launched writes =>
        rw [phase] at waits
        dsimp only
        rw [Option.some.inj waits]
        rfl
    | collecting waiting =>
        rw [phase] at waits
        dsimp only
        rw [Option.some.inj waits]
        rfl
    | _ => simp [phase] at waits
  simp [SoloRun.step, took, Drive.collect]

theorem Behind.catchUp (behind : Behind place job action diff run run') {failure : Failure}
    (member : failure ∈ diff.proxies) (judging : run.drive.phase = .judging ⟨1, [failure]⟩)
    {phase : Phase} (there : run'.drive = { run.drive.acting action diff.span with phase })
    {limit : Option TimeLimit}
    (waits : run'.drive.collects policy run'.now = some ⟨limit, [⟨failure.completion, none⟩]⟩)
    (fails : (run'.completions.poll run'.now failure.completion).1.result? run'.now limit =
      some (.failure failure.error)) : Abreast job action diff run (run'.step policy) := by
  rw [SoloRun.step_single waits, fails]
  refine ⟨{ behind.toBeside with alike := behind.alike.poll_theirs member run'.now }, ?_, ?_⟩
  · have same : (run.drive.acting action diff.span).phase = .judging ⟨1, [failure]⟩ :=
      congrArg (Phase.later diff.span) judging
    simp [Drive.collect, Aggregation.isComplete, Aggregation.outcome, Slot.failure?, there, ← same]
  · simp [Drive.awaits, judging]

theorem Behind.step_launched (outlasts : ∀ sleep, sleeps sleep → policy.Outlasts sleep)
    (behind : Behind (Launched sleeps) job action diff run run') :
    Abreast job action diff run (run'.step policy) ∨
      Behind (Asleep sleeps) job action diff run (run'.step policy) := by
  obtain ⟨failure, member, judging, phase, there, completion, entry, ⟨impends⟩⟩ := behind.deferred
  let limit := policy.completionTimeout.map (TimeLimit.begin run'.now)
  have waits : run'.drive.collects policy run'.now =
      some ⟨limit, [⟨failure.completion, none⟩]⟩ := by rw [there]; rfl
  have caught := behind.catchUp member judging there waits
  cases impends with
  | known => exact .inl (caught (by rw [Completions.poll_of_unresolved entry]; rfl))
  | @panics panic sleep same allowed =>
      have polled := Completions.poll_of_unresolved entry run'.now
      cases sleep with
      | none => exact .inl (caught (by rw [polled, same]; rfl))
      | some pause =>
          obtain ⟨ends, spares⟩ := outlasts _ allowed pause rfl
          have due : none.or (run'.now.wakeUp? pause) = some (run'.now.after pause) :=
            Instant.wakeUp?_of_ends ends run'.now
          rw [Origin.poll_of_due due] at polled
          by_cases awake : run'.now.after pause ≤ run'.now
          · apply Or.inl
            apply caught
            rw [polled, same]
            simp [awake, TaskEnding.poll, Poll.result?]
          · have intime : ∀ span ∈ limit, run'.now.after pause ≤ span.expiresAt := by
              intro span given
              obtain ⟨timeout, present, rfl⟩ := Option.map_eq_some_iff.mp given
              exact Nat.add_le_add_left (spares timeout present) _
            have pending : (run'.completions.poll run'.now failure.completion).1 = .pending := by
              rw [polled]
              simp [awake]
            have undecided : Poll.result? run'.now limit .pending = none := by
              cases present : limit with
              | none => rfl
              | some span =>
                  have lasts := Nat.lt_of_lt_of_le (Nat.lt_of_not_le awake) (intime span present)
                  exact if_neg (by simpa [TimeLimit.isOver] using lasts)
            refine .inr ⟨?_, failure, member, judging,
              .collecting ⟨limit, [⟨failure.completion, none⟩]⟩, ?_, _, ?_,
              .intro same allowed intime⟩
            · rw [SoloRun.step_single waits]
              exact { behind.toBeside with alike := behind.alike.poll_theirs member run'.now }
            · rw [SoloRun.step_single waits, pending, undecided, there]
              rfl
            · rw [SoloRun.step_single waits, polled]
              simp only [awake, if_false, Completions.conclude]
              exact Completions.entry_put (Array.getElem?_eq_some_iff.mp entry).1 _

theorem Behind.step_asleep (behind : Behind (Asleep sleeps) job action diff run run')
    (possible : run'.drive.canStep run'.now run'.completions = true) :
    Abreast job action diff run (run'.step policy) := by
  obtain ⟨failure, member, judging, phase, there, _, entry, asleep⟩ := behind.deferred
  cases asleep with
  | intro same allowed intime =>
      have awake := (Drive.canStep_asleep (by rw [there]) entry intime _).mp possible
      apply behind.catchUp member judging there (by rw [there]; rfl)
      rw [Completions.poll_of_unresolved entry, same]
      simp [Origin.poll, awake, TaskEnding.poll, Poll.result?]

theorem Behind.wakeAt?_asleep (behind : Behind (Asleep sleeps) job action diff run run')
    (stuck : ¬ run'.drive.canStep run'.now run'.completions = true) :
    ∃ pause due, sleeps (some pause) ∧ run'.drive.wakeAt? run'.completions = some due ∧
      run'.now < due ∧ run'.drive.canStep due run'.completions = true := by
  obtain ⟨failure, member, judging, phase, there, _, entry, asleep⟩ := behind.deferred
  cases asleep with
  | @intro limit pause due panic same allowed intime =>
      have possible := Drive.canStep_asleep (d := run'.drive) (by rw [there]) entry intime
      refine ⟨pause, due, allowed, Drive.wakeAt?_asleep (by rw [there]) entry intime, ?_, ?_⟩
      · exact Nat.lt_of_not_le fun awake => stuck ((possible _).mpr awake)
      · exact (possible due).mpr (Nat.le_refl due)

theorem Drive.OfJob.mentions {d : Drive} {id : CompletionId} (ofJob : d.OfJob job)
    (unspent : d.phase.hasReverted = false) (mentions : d.job.Mentions id) : job.Mentions id := by
  rcases mentions with ⟨number, member⟩ | ⟨compensator, failed, present, member⟩
  · exact .inl ⟨number, ofJob.action ▸ member⟩
  · exact .inr ⟨compensator, failed, (ofJob.compensator unspent).symm.trans present, member⟩

theorem Occurrence.alike_of_step {taken taken' : Drive.Step} (log : taken'.log = taken.log)
    (made : List.Forall₂ JobCall.Alike taken.made taken'.made) :
    List.Forall₂ Occurrence.Alike (taken.log.map .logged ++ taken.made.map .called)
      (taken'.log.map .logged ++ taken'.made.map .called) := by
  rw [log]
  apply List.rel_append
  · rw [List.forall₂_map_left_iff, List.forall₂_map_right_iff]
    exact List.forall₂_same.mpr fun line _ => .logged line
  · rw [List.forall₂_map_left_iff, List.forall₂_map_right_iff]
    exact made.imp fun _ _ alike => .called alike

theorem Beside.step {diff' : Difference} {taken taken' : Drive.Step}
    (beside : Beside job diff run run') (going : run.drive.resolution? = none)
    (span : diff'.span = diff.span)
    (took : run.drive.step policy run.now run.completions = taken)
    (took' : run'.drive.step policy run'.now run'.completions = taken')
    (log : taken'.log = taken.log) (made : List.Forall₂ JobCall.Alike taken.made taken'.made)
    (alike : taken.completions.Alike diff' taken'.completions)
    (wider : ∀ failure ∈ diff.proxies, failure ∈ diff'.proxies)
    (mentions : ∀ id, job.Mentions id → diff'.Spares id)
    (fresh : ∀ error, run.drive.phase = .ready →
      (job.action (run.drive.calls + 1)).error? = some error →
        ⟨run.completions.entries.size, error⟩ ∈ diff'.proxies) :
    Beside job diff' (run.step policy) (run'.step policy) := by
  have step : DriveStep policy run.now run.completions run.drive _ _ _ :=
    Drive.step_driveStep going
  have notes := (beside.notes.mono wider).of_driveStep beside.ofJob fresh step
  subst took took'
  exact {
    now := by rw [span]; exact beside.now
    log := by simp only [SoloRun.step, beside.log, log]
    made := by simpa [SoloRun.step] using List.rel_append beside.made made
    alike
    mentions
    ofJob := beside.ofJob.of_driveStep step
    notes := by simpa [SoloRun.step] using notes }

theorem Abreast.step_returned (defers : Defers sleeps job.action action)
    (abreast : Abreast job action diff run run') (going : run.drive.resolution? = none)
    (returns : run.drive.phase = .ready →
      ∃ started, job.action (run.drive.calls + 1) = .writes started) :
    Abreast job action diff (run.step policy) (run'.step policy) ∧
      List.Forall₂ Occurrence.Alike (run.shows policy) (run'.shows policy) := by
  have stepped : Drive.Step.Matches action diff
      (run.drive.step policy run.now run.completions)
      (run'.drive.step policy run'.now run'.completions) := by
    rw [← abreast.ofJob.action] at defers returns
    rw [abreast.drive, abreast.now]
    refine Drive.step_matches defers abreast.alike ?_ abreast.awaits returns
    exact fun unspent id mentioned =>
      abreast.mentions id (abreast.ofJob.mentions unspent mentioned)
  refine ⟨⟨?_, stepped.drive, stepped.awaits⟩, Occurrence.alike_of_step stepped.log stepped.made⟩
  apply abreast.toBeside.step going rfl rfl rfl stepped.log stepped.made stepped.completions
    (fun _ member => member) abreast.mentions
  intro error phase fails
  obtain ⟨started, call⟩ := returns phase
  rw [call] at fails
  cases fails

theorem Beside.step_failed (beside : Beside job diff run run')
    (phase : run.drive.phase = .ready) {error : CompletionError}
    (fails : (job.action (run.drive.calls + 1)).error? = some error)
    (unmentioned : ¬ job.Mentions run.completions.entries.size) {drive' : Drive}
    {completion : Completion} (stands : completion.StandsFor error)
    (took' : run'.drive.step policy run'.now run'.completions =
      ⟨drive', (run'.completions.add completion).2, [run.drive.transitionLine .running],
        [.attempt (run.drive.calls + 1)]⟩) :
    Beside job (diff.including ⟨run.completions.entries.size, error⟩) (run.step policy)
      (run'.step policy) := by
  have going : run.drive.resolution? = none := by rw [Drive.resolution?, phase]
  have took := Drive.step_fails policy run.now run.completions phase (beside.ofJob.action ▸ fails)
  have alike := beside.alike.add_proxy .known stands
  apply beside.step going (by rfl) took took' rfl (.cons (.attempt _) .nil) alike
    (fun _ => List.mem_cons_of_mem _)
  · intro id mentioned
    obtain ⟨young, apart⟩ := beside.mentions id mentioned
    refine ⟨young, List.forall_mem_cons.mpr ⟨?_, apart⟩⟩
    rintro rfl
    exact unmentioned mentioned
  · intro other _ fails'
    obtain rfl : error = other := Option.some.inj (fails.symm.trans fails')
    exact List.mem_cons_self

/-- When a call fails, the run that defers its failure falls behind. -/
theorem Abreast.step_failed (defers : Defers sleeps job.action action)
    (abreast : Abreast job action diff run run') (phase : run.drive.phase = .ready)
    {error : CompletionError} (fails : (job.action (run.drive.calls + 1)).error? = some error)
    (unmentioned : ¬ job.Mentions run.completions.entries.size) :
    ∃ diff', diff'.span = diff.span ∧
      (Abreast job action diff' (run.step policy) (run'.step policy) ∨
        Behind (Launched sleeps) job action diff' (run.step policy) (run'.step policy)) ∧
      List.Forall₂ Occurrence.Alike (run.shows policy) (run'.shows policy) := by
  have own := abreast.ofJob.action
  have size := abreast.alike.size
  have took := Drive.step_fails policy run.now run.completions phase (own ▸ fails)
  have shown {drive' : Drive} {cs : Completions}
      (took' : run'.drive.step policy run'.now run'.completions =
        ⟨drive', cs, [run.drive.transitionLine .running], [.attempt (run.drive.calls + 1)]⟩) :
      List.Forall₂ Occurrence.Alike (run.shows policy) (run'.shows policy) := by
    rw [SoloRun.shows, took, SoloRun.shows, took']
    exact Occurrence.alike_of_step rfl (.cons (.attempt _) .nil)
  let failure : Failure := ⟨run.completions.entries.size, error⟩
  refine ⟨diff.including failure, rfl, ?_⟩
  rcases defers (run.drive.calls + 1) with same | deferred
  · have took' : run'.drive.step policy run'.now run'.completions =
        ⟨{ (run.drive.acting action diff.span).counted with phase := .judging ⟨1, [failure]⟩ },
          (run'.completions.add (.unresolved (.known (.failure error)))).2,
          [run.drive.transitionLine .running], [.attempt (run.drive.calls + 1)]⟩ := by
      rw [abreast.drive]
      simp only [failure, ← size]
      exact Drive.step_fails policy run'.now run'.completions
        (congrArg (Phase.later diff.span) phase) ((congrArg Call.error? same).trans fails)
    have beside := abreast.toBeside.step_failed phase fails unmentioned (.tells .known) took'
    refine ⟨.inl ⟨beside, ?_, ?_⟩, shown took'⟩
    · simp only [SoloRun.step, took, took']
      rfl
    · simp [SoloRun.step, took, Drive.awaits]
  · obtain ⟨completion, impends, took'⟩ :=
      Drive.step_defers policy run'.now run'.completions diff.span phase (own ▸ fails)
        (own ▸ deferred)
    rw [size] at took'
    replace took' :=
      (congrArg (Drive.step policy run'.now run'.completions) abreast.drive).trans took'
    have beside := abreast.toBeside.step_failed phase fails unmentioned impends.standsFor took'
    refine ⟨.inr ⟨beside, failure, List.mem_cons_self, ?_, .launched [failure.completion], ?_,
      completion, ?_, .intro impends⟩, shown took'⟩
    · simp only [SoloRun.step, took]
      rfl
    · simp only [SoloRun.step, took, took']
      rfl
    · simp [SoloRun.step, took', Completions.add, failure, ← size]

theorem Abreast.canStep_eq (abreast : Abreast job action diff run run') :
    run'.drive.canStep run'.now run'.completions = run.drive.canStep run.now run.completions := by
  rw [abreast.drive, abreast.now]
  exact Drive.canStep_acting abreast.alike abreast.awaits

theorem Abreast.wakeAt?_eq (abreast : Abreast job action diff run run') :
    run'.drive.wakeAt? run'.completions =
      (run.drive.wakeAt? run.completions).map (· + diff.span) := by
  rw [abreast.drive]
  exact Drive.wakeAt?_acting abreast.alike abreast.awaits

theorem Abreast.begin (job : Job) (action : Nat → Call) (begun : Instant) (cs : Completions) :
    Abreast job action .none (.begin begun cs job) (.begin begun cs (job.acting action)) where
  now := rfl
  log := rfl
  made := .nil
  alike := .refl cs
  mentions _ _ := ⟨Nat.zero_le _, fun _ member => by cases member⟩
  ofJob := .begin job
  notes := .begin job
  drive := rfl
  awaits _ member := by cases member

theorem Behind.canStep_launched (behind : Behind (Launched sleeps) job action diff run run') :
    run'.drive.canStep run'.now run'.completions = true := by
  obtain ⟨failure, -, -, phase, there, completion, -, ⟨-⟩⟩ := behind.deferred
  rw [there]
  rfl

theorem SoloRun.shows_of_collects {run : SoloRun} {waiting : Aggregation}
    (waits : run.drive.collects policy run.now = some waiting) : run.shows policy = [] := by
  unfold Drive.collects at waits
  unfold shows Drive.step
  cases phase : run.drive.phase <;> simp_all [Drive.collect]

theorem Behind.shows_launched (behind : Behind (Launched sleeps) job action diff run run') :
    run'.shows policy = [] := by
  obtain ⟨failure, -, -, phase, there, completion, -, ⟨-⟩⟩ := behind.deferred
  exact SoloRun.shows_of_collects (by rw [there]; rfl)

theorem Behind.shows_asleep (behind : Behind (Asleep sleeps) job action diff run run') :
    run'.shows policy = [] := by
  obtain ⟨failure, -, -, phase, there, completion, -, ⟨-⟩⟩ := behind.deferred
  exact SoloRun.shows_of_collects (by rw [there]; rfl)

end

/-- The run that defers failures is abreast or behind. -/
def Near (sleeps : Option Duration → Prop) (job : Job) (action : Nat → Call) (diff : Difference)
    (run run' : SoloRun) : Prop :=
  Abreast job action diff run run' ∨ Behind (Launched sleeps) job action diff run run' ∨
    Behind (Asleep sleeps) job action diff run run'

/-- Along every course from here, the job hands back none of the completions that stand for its failed
calls. -/
def Job.KeepsApart (job : Job) (policy : RetryPolicy) (origin : SoloRun) : Prop :=
  ∀ (course : List Occurrence) (run : SoloRun) (outcome : Outcome),
    Courses policy origin course run → run.drive.phase = .judging outcome →
      (job.action run.drive.calls).error?.isSome → ∀ failure ∈ outcome.failures,
        ¬ job.Mentions failure.completion

section

variable {policy : RetryPolicy} {job : Job} {action : Nat → Call} {diff : Difference}
  {sleeps : Option Duration → Prop} {begun : Instant} {cs : Completions}
  {origin run run' : SoloRun} {course course' : List Occurrence}

theorem Near.meet (near : Near sleeps job action diff run run') (happening : Happening) :
    Near sleeps job action diff (run.meet happening) (run'.meet (happening.later diff.span)) := by
  rcases near with abreast | launched | asleep
  · exact .inl (abreast.meet happening)
  · exact .inr (.inl (launched.meet happening (by rintro failure phase ⟨⟨⟩⟩)))
  · exact .inr (.inr (asleep.meet happening (by rintro failure phase ⟨⟩)))

theorem Abreast.step (defers : Defers sleeps job.action action)
    (apart : job.KeepsApart policy origin) (courses : Courses policy origin course run)
    (abreast : Abreast job action diff run run')
    (possible : run.drive.canStep run.now run.completions = true) :
    ∃ diff', diff'.span = diff.span ∧
      (Abreast job action diff' (run.step policy) (run'.step policy) ∨
        Behind (Launched sleeps) job action diff' (run.step policy) (run'.step policy)) ∧
      List.Forall₂ Occurrence.Alike (run.shows policy) (run'.shows policy) := by
  by_cases failing : ∃ error, run.drive.phase = .ready ∧
      (job.action (run.drive.calls + 1)).error? = some error
  · obtain ⟨error, phase, fails⟩ := failing
    apply abreast.step_failed defers phase fails
    have took := Drive.step_fails policy run.now run.completions phase
      (abreast.ofJob.action ▸ fails)
    have judging : (run.step policy).drive.phase =
        .judging ⟨1, [⟨run.completions.entries.size, error⟩]⟩ := by
      rw [SoloRun.step, took]
    refine apart _ _ _ (courses.step possible) judging ?_ _ List.mem_cons_self
    rw [SoloRun.step, took]
    exact Option.isSome_of_eq_some fails
  · have returns : run.drive.phase = .ready →
        ∃ started, job.action (run.drive.calls + 1) = .writes started := by
      intro phase
      cases call : job.action (run.drive.calls + 1) with
      | writes started => exact ⟨started, rfl⟩
      | fails | panics => exact absurd ⟨_, phase, congrArg Call.error? call⟩ failing
    have going := Drive.resolution?_of_canStep possible
    exact ⟨diff, rfl, (abreast.step_returned defers going returns).imp_left .inl⟩

theorem Behind.step_prompt (behind : Behind (Launched (· = none)) job action diff run run') :
    Abreast job action diff run (run'.step policy) := by
  have outlasts : ∀ sleep, sleep = none → policy.Outlasts sleep :=
    fun _ => RetryPolicy.outlasts_of_none
  rcases behind.step_launched outlasts with abreast | asleep
  · exact abreast
  · obtain ⟨failure, -, -, phase, -, completion, -, ⟨-, ⟨⟩, -⟩⟩ := asleep.deferred

theorem Happening.later_of_zero {span : Nat} (unshifted : span = 0) (happening : Happening) :
    happening.later span = happening := by
  subst unshifted
  cases happening <;> rfl

theorem Courses.deferred (defers : Defers (· = none) job.action action)
    (apart : job.KeepsApart policy (.begin begun cs job))
    (courses : Courses policy (.begin begun cs job) course run) :
    ∃ course' run' diff, Courses policy (.begin begun cs (job.acting action)) course' run' ∧
      List.Forall₂ Occurrence.Alike course course' ∧ diff.span = 0 ∧
        Abreast job action diff run run' := by
  induction courses with
  | begin => exact ⟨[], _, .none, .begin, .nil, rfl, .begin job action begun cs⟩
  | @step course run courses possible ih =>
      obtain ⟨course', run', diff, deferred, same, span, abreast⟩ := ih
      obtain ⟨diff', kept, after, shown⟩ := abreast.step defers apart courses possible
      have followed := deferred.step (abreast.canStep_eq.trans possible)
      rcases after with abreast | behind
      · exact ⟨_, _, diff', followed, List.rel_append same shown, kept.trans span, abreast⟩
      · refine ⟨_, _, diff', followed.step behind.canStep_launched, ?_, kept.trans span,
          behind.step_prompt⟩
        rw [behind.shows_launched, List.append_nil]
        exact List.rel_append same shown
  | @meet course run courses happening ih =>
      obtain ⟨course', run', diff, deferred, same, span, abreast⟩ := ih
      have met := abreast.meet happening
      rw [happening.later_of_zero span] at met
      exact ⟨_, _, diff, deferred.meet happening,
        List.rel_append same (.cons (.around happening) .nil), span, met⟩

theorem Courses.undeferred (defers : Defers sleeps job.action action)
    (outlasts : ∀ sleep, sleeps sleep → policy.Outlasts sleep)
    (apart : job.KeepsApart policy (.begin begun cs job))
    (courses' : Courses policy (.begin begun cs (job.acting action)) course' run') :
    ∃ course run diff, Courses policy (.begin begun cs job) course run ∧
      List.Forall₂ Occurrence.Alike course course' ∧ diff.span = 0 ∧
        Near sleeps job action diff run run' := by
  induction courses' with
  | begin => exact ⟨[], _, .none, .begin, .nil, rfl, .inl (.begin job action begun cs)⟩
  | @step course' run' courses' possible ih =>
      obtain ⟨course, run, diff, courses, same, span, abreast | launched | asleep⟩ := ih
      · rw [abreast.canStep_eq] at possible
        obtain ⟨diff', kept, after, shown⟩ := abreast.step defers apart courses possible
        exact ⟨_, _, diff', courses.step possible, List.rel_append same shown, kept.trans span,
          after.imp_right .inl⟩
      · refine ⟨course, run, diff, courses, ?_, span, (launched.step_launched outlasts).imp_right .inr⟩
        rwa [launched.shows_launched, List.append_nil]
      · refine ⟨course, run, diff, courses, ?_, span, .inl (asleep.step_asleep possible)⟩
        rwa [asleep.shows_asleep, List.append_nil]
  | @meet course' run' courses' happening ih =>
      obtain ⟨course, run, diff, courses, same, span, near⟩ := ih
      have met := near.meet happening
      rw [happening.later_of_zero span] at met
      exact ⟨_, _, diff, courses.meet happening,
        List.rel_append same (.cons (.around happening) .nil), span, met⟩

theorem Courses.advance {next : SoloRun} (courses : Courses policy origin course run)
    (advanced : run.advance? policy = some next) : ∃ course', Courses policy origin course' next := by
  obtain ⟨possible, rfl⟩ | ⟨now, rfl⟩ := SoloRun.advance?_cases advanced
  · exact ⟨_, courses.step possible⟩
  · exact ⟨_, courses.meet (.passes now)⟩

theorem Abreast.advance (defers : Defers sleeps job.action action)
    (apart : job.KeepsApart policy origin) (courses : Courses policy origin course run)
    (abreast : Abreast job action diff run run') :
    Option.Rel (fun next next' => ∃ diff', Abreast job action diff' next next' ∨
      Behind (Launched sleeps) job action diff' next next')
      (run.advance? policy) (run'.advance? policy) := by
  unfold SoloRun.advance?
  rw [abreast.canStep_eq, abreast.wakeAt?_eq, abreast.now]
  split
  · rename_i possible
    obtain ⟨diff', -, after, -⟩ := abreast.step defers apart courses possible
    exact .some ⟨diff', after⟩
  · cases run.drive.wakeAt? run.completions with
    | none => exact .none
    | some due =>
        simp only [Option.map_some, Option.bind_some, Nat.add_lt_add_iff_right]
        split
        · exact .some ⟨diff, .inl (abreast.meet (.passes due))⟩
        · exact .none

theorem Behind.advance_launched (behind : Behind (Launched sleeps) job action diff run run') :
    run'.advance? policy = some (run'.step policy) :=
  if_pos behind.canStep_launched

theorem Behind.advance_asleep
    (unmentioned : ∀ pause, sleeps (some pause) → ∀ id, ¬ job.Mentions id)
    (behind : Behind (Asleep sleeps) job action diff run run') :
    ∃ next' diff', run'.advance? policy = some next' ∧ (Abreast job action diff' run next' ∨
      Behind (Asleep sleeps) job action diff' run next' ∧
        next'.drive.canStep next'.now next'.completions = true) := by
  by_cases possible : run'.drive.canStep run'.now run'.completions = true
  · exact ⟨_, diff, if_pos possible, .inl (behind.step_asleep possible)⟩
  · obtain ⟨pause, due, allowed, wakes, ahead, awake⟩ := behind.wakeAt?_asleep possible
    have later := behind.delay (unmentioned pause allowed) (due - run'.now)
    rw [Nat.add_sub_cancel' (Nat.le_of_lt ahead)] at later
    refine ⟨_, _, ?_, .inr ⟨later, awake⟩⟩
    simp [SoloRun.advance?, possible, wakes, ahead]

theorem SoloRun.finish_of_advance {next : SoloRun} (advanced : run.advance? policy = some next)
    (fuel : Nat) : run.finish policy (fuel + 1) = next.finish policy fuel := by
  rw [finish, advanced]

theorem Behind.catchesUp (unmentioned : ∀ pause, sleeps (some pause) → ∀ id, ¬ job.Mentions id)
    (behind : Behind (Asleep sleeps) job action diff run run') :
    ∃ gap diff' later, Abreast job action diff' run later ∧
      ∀ fuel, run'.finish policy (fuel + gap) = later.finish policy fuel := by
  obtain ⟨next, diff', advanced, abreast | ⟨asleep, possible⟩⟩ := behind.advance_asleep unmentioned
  · exact ⟨1, diff', next, abreast, SoloRun.finish_of_advance advanced⟩
  · refine ⟨2, diff', next.step policy, asleep.step_asleep possible, fun fuel => ?_⟩
    rw [SoloRun.finish_of_advance advanced, SoloRun.finish_of_advance (if_pos possible)]

/-- However far the job is driven, the one that defers failures gets there. -/
theorem Abreast.finish (defers : Defers sleeps job.action action)
    (outlasts : ∀ sleep, sleeps sleep → policy.Outlasts sleep)
    (unmentioned : ∀ pause, sleeps (some pause) → ∀ id, ¬ job.Mentions id)
    (apart : job.KeepsApart policy origin) (courses : Courses policy origin course run)
    (abreast : Abreast job action diff run run') (fuel : Nat) :
    ∃ fuel' diff', Abreast job action diff' (run.finish policy fuel)
      (run'.finish policy fuel') := by
  induction fuel generalizing run run' diff course with
  | zero => exact ⟨0, diff, abreast⟩
  | succ fuel ih =>
      have both := abreast.advance defers apart courses
      cases advanced : run.advance? policy with
      | none =>
          rw [SoloRun.finish, advanced]
          exact ⟨0, diff, abreast⟩
      | some next =>
          obtain ⟨_, courses⟩ := courses.advance advanced
          rw [SoloRun.finish_of_advance advanced]
          cases advanced' : run'.advance? policy with
          | none => simp [advanced, advanced'] at both
          | some next' =>
              rw [advanced, advanced'] at both
              obtain ⟨diff', abreast | behind⟩ := Option.rel_some_some.mp both
              · obtain ⟨fuel', finished⟩ := ih courses abreast
                exact ⟨fuel' + 1, by rwa [SoloRun.finish_of_advance advanced']⟩
              · rcases behind.step_launched outlasts with abreast | asleep
                · obtain ⟨fuel', finished⟩ := ih courses abreast
                  refine ⟨fuel' + 2, ?_⟩
                  rwa [SoloRun.finish_of_advance advanced',
                    SoloRun.finish_of_advance behind.advance_launched]
                · obtain ⟨gap, diff', later, abreast, leads⟩ := asleep.catchesUp unmentioned
                  obtain ⟨fuel', finished⟩ := ih courses abreast
                  refine ⟨fuel' + gap + 2, ?_⟩
                  rwa [SoloRun.finish_of_advance advanced',
                    SoloRun.finish_of_advance behind.advance_launched, leads]

/-- However far the job that defers failures is driven, it gets no further than the job itself. -/
theorem Near.finish (defers : Defers sleeps job.action action)
    (outlasts : ∀ sleep, sleeps sleep → policy.Outlasts sleep)
    (unmentioned : ∀ pause, sleeps (some pause) → ∀ id, ¬ job.Mentions id)
    (apart : job.KeepsApart policy origin) (courses : Courses policy origin course run)
    (near : Near sleeps job action diff run run') (fuel' : Nat) :
    ∃ fuel diff', Near sleeps job action diff' (run.finish policy fuel)
      (run'.finish policy fuel') := by
  induction fuel' generalizing run run' diff course with
  | zero => exact ⟨0, diff, near⟩
  | succ fuel' ih =>
      rcases near with abreast | launched | asleep
      · have both := abreast.advance defers apart courses
        cases advanced' : run'.advance? policy with
        | none =>
            rw [SoloRun.finish, advanced']
            exact ⟨0, diff, .inl abreast⟩
        | some next' =>
            rw [SoloRun.finish_of_advance advanced']
            cases advanced : run.advance? policy with
            | none => simp [advanced, advanced'] at both
            | some next =>
                obtain ⟨_, courses⟩ := courses.advance advanced
                rw [advanced, advanced'] at both
                obtain ⟨diff', after⟩ := Option.rel_some_some.mp both
                obtain ⟨fuel, finished⟩ := ih courses (after.imp_right .inl)
                exact ⟨fuel + 1, by rwa [SoloRun.finish_of_advance advanced]⟩
      · rw [SoloRun.finish_of_advance launched.advance_launched]
        exact ih courses ((launched.step_launched outlasts).imp_right .inr)
      · obtain ⟨next, diff', advanced, after⟩ := asleep.advance_asleep unmentioned
        rw [SoloRun.finish_of_advance advanced]
        exact ih courses (after.imp_right fun behind => .inr behind.1)

end

/-- What a caller finds in both of two runs. If the last call of the action has failed with an error,
then the completion that the compensator is given in its place has this error. -/
structure SoloRun.Agrees (job : Job) (run run' : SoloRun) : Prop where
  result : run'.result? = run.result?
  log : run'.log = run.log
  made : List.Forall₂ JobCall.Alike run.made.toList run'.made.toList
  errors : ∀ (error : ErrorChain) (failed : List CompletionId) (inspections : List Inspection),
    job.action run.drive.calls = .fails error → .compensate failed inspections ∈ run.made.toList →
      ∃ id, failed = [id] ∧ ∀ now,
        (run.completions.poll now id).1 = .ready (.failure (.failed error)) ∧
          (run'.completions.poll now id).1 = .ready (.failure (.failed error))

/-- Whether attempts fail at once or hand back a completion that fails makes no difference to the
courses of a job, nor to how far it gets when it is driven alone. A failure that comes after a sleep
delays what follows. So then the job must hand back nothing that was there before, which might have
changed in the meantime. -/
structure Indifferent (policy : RetryPolicy) (job : Job) (action : Nat → Call) (begun : Instant)
    (cs : Completions) : Prop where
  undeferred : ∀ course' run', Courses policy (.begin begun cs (job.acting action)) course' run' →
    ∃ course run, Courses policy (.begin begun cs job) course run ∧
      List.Forall₂ Occurrence.Alike course course' ∧ run.Agrees job run'
  deferred : Defers (· = none) job.action action →
    ∀ course run, Courses policy (.begin begun cs job) course run →
      ∃ course' run', Courses policy (.begin begun cs (job.acting action)) course' run' ∧
        List.Forall₂ Occurrence.Alike course course' ∧ run.Agrees job run'
  driven : Defers (· = none) job.action action ∨ (∀ id, ¬ job.Mentions id) →
    (∀ fuel, ∃ fuel', ((SoloRun.begin begun cs job).finish policy fuel).Agrees job
      ((SoloRun.begin begun cs (job.acting action)).finish policy fuel')) ∧
    ∀ fuel', ∃ fuel, ((SoloRun.begin begun cs job).finish policy fuel).Agrees job
      ((SoloRun.begin begun cs (job.acting action)).finish policy fuel')

section

variable {policy : RetryPolicy} {job : Job} {action : Nat → Call} {diff : Difference}
  {sleeps : Option Duration → Prop} {begun : Instant} {cs : Completions} {run run' : SoloRun}

theorem Completions.Has.yields {id : CompletionId} {error : ErrorChain}
    (stands : cs.Has id (·.StandsFor (.failed error))) (now : Instant) :
    (cs.poll now id).1 = .ready (.failure (.failed error)) := by
  obtain ⟨completion, entry, stands⟩ := stands
  rw [Completions.poll, entry]
  rcases stands with ⟨⟨⟩⟩ | ⟨⟨⟩⟩ | ⟨⟨⟩⟩ <;> rfl

theorem Beside.agrees (beside : Beside job diff run run')
    (result : run'.result? = run.result?) : run.Agrees job run' where
  result := result
  log := beside.log
  made := beside.made
  errors error failed inspections fails member := by
    obtain ⟨failure, among, same, rfl⟩ :=
      beside.notes.handed member (.failed error) (congrArg Call.error? fails)
    refine ⟨failure.completion, rfl, fun now => ⟨?_, ?_⟩⟩
    · have tells := beside.alike.ours failure among
      rw [same] at tells
      exact (tells.imp fun _ tells => .tells tells).yields now
    · have stands := beside.alike.theirs failure among
      rw [same] at stands
      exact stands.yields now

theorem Near.agrees (near : Near sleeps job action diff run run') : run.Agrees job run' := by
  rcases near with abreast | launched | asleep
  · apply abreast.toBeside.agrees
    rw [SoloRun.result?, abreast.drive, Drive.resolution?_acting]
    rfl
  · apply launched.toBeside.agrees
    obtain ⟨failure, -, judging, phase, there, completion, -, ⟨-⟩⟩ := launched.deferred
    simp [SoloRun.result?, Drive.resolution?, judging, there]
  · apply asleep.toBeside.agrees
    obtain ⟨failure, -, judging, phase, there, completion, -, ⟨-⟩⟩ := asleep.deferred
    simp [SoloRun.result?, Drive.resolution?, judging, there]

theorem agrees_of_finish (defers : Defers sleeps job.action action)
    (outlasts : ∀ sleep, sleeps sleep → policy.Outlasts sleep)
    (unmentioned : ∀ pause, sleeps (some pause) → ∀ id, ¬ job.Mentions id)
    (apart : job.KeepsApart policy (.begin begun cs job)) :
    (∀ fuel, ∃ fuel', ((SoloRun.begin begun cs job).finish policy fuel).Agrees job
      ((SoloRun.begin begun cs (job.acting action)).finish policy fuel')) ∧
    ∀ fuel', ∃ fuel, ((SoloRun.begin begun cs job).finish policy fuel).Agrees job
      ((SoloRun.begin begun cs (job.acting action)).finish policy fuel') := by
  have abreast := Abreast.begin job action begun cs
  constructor
  · intro fuel
    obtain ⟨fuel', diff, after⟩ := abreast.finish defers outlasts unmentioned apart .begin fuel
    have near : Near sleeps job action diff _ _ := .inl after
    exact ⟨fuel', near.agrees⟩
  · intro fuel'
    have near : Near sleeps job action .none _ _ := .inl abreast
    obtain ⟨fuel, diff, after⟩ := near.finish defers outlasts unmentioned apart .begin fuel'
    exact ⟨fuel, after.agrees⟩

theorem indifferent_of_keepsApart (defers : Defers policy.Outlasts job.action action)
    (apart : job.KeepsApart policy (.begin begun cs job)) :
    Indifferent policy job action begun cs where
  undeferred course' run' courses' := by
    obtain ⟨course, run, diff, courses, same, -, near⟩ :=
      courses'.undeferred defers (fun _ outlasts => outlasts) apart
    exact ⟨course, run, courses, same, near.agrees⟩
  deferred prompt course run courses := by
    obtain ⟨course', run', diff, courses', same, -, abreast⟩ := courses.deferred prompt apart
    have near : Near (· = none) job action diff run run' := .inl abreast
    exact ⟨course', run', courses', same, near.agrees⟩
  driven given := by
    rcases given with prompt | unmentioned
    · have outlasts : ∀ sleep, sleep = none → policy.Outlasts sleep :=
        fun _ => RetryPolicy.outlasts_of_none
      exact agrees_of_finish prompt outlasts (by rintro pause ⟨⟩) apart
    · exact agrees_of_finish defers (fun _ outlasts => outlasts) (fun _ _ => unmentioned) apart

theorem Job.keepsApart_of_unmentioned (unmentioned : ∀ id, ¬ job.Mentions id) (origin : SoloRun) :
    job.KeepsApart policy origin :=
  fun _ _ _ _ _ _ failure _ => unmentioned failure.completion

end

/-- Every attempt fails, and no two in the same way. -/
def hapless : Job :=
  let started := fun
    | 1 => .fails ⟨["refused"]⟩
    | 2 => .panics .other
    | 3 => .writes [.dropped, .task (some ⟨5⟩) .succeeds]
    | _ => .fails ⟨["write", "refused"]⟩
  ((Job.new "A" started).withMaxRetries 3).withCompensator
    ⟨fun _ => .writes [.gate "undo"], true, fun _ => []⟩

/-- The same failures, but for the first one all deferred. -/
def haplessLater : Nat → Call
  | 1 => .fails ⟨["refused"]⟩
  | 2 => .writes [.task (some ⟨50⟩) (.panics (.text "unknown panic payload"))]
  | 3 => .writes [.dropped, .task (some ⟨5⟩) .succeeds]
  | _ => .writes [.failed ⟨["write", "refused"]⟩]

theorem indifferent_of_hapless :
    let policy : RetryPolicy := ⟨some ⟨50⟩, some ⟨10⟩⟩
    (Defers policy.Outlasts hapless.action haplessLater ∧
        hapless.KeepsApart policy (.begin .start .empty hapless) ∧ ∀ id, ¬ hapless.Mentions id) ∧
      Indifferent policy hapless haplessLater .start .empty := by
  intro policy
  have defers : Defers policy.Outlasts hapless.action haplessLater := by
    intro number
    match number with
    | 0 | _ + 4 => exact .inr (.fails _)
    | 1 | 3 => exact .inl rfl
    | 2 =>
        refine .inr (.panics rfl ?_)
        rintro pause ⟨⟩
        refine ⟨rfl, ?_⟩
        rintro limit ⟨⟩
        exact Nat.le_refl _
  have unmentioned (id : CompletionId) : ¬ hapless.Mentions id := by
    rintro (⟨number, member⟩ | ⟨compensator, failed, ⟨⟩, member⟩)
    · match number with
      | 0 | 1 | 2 | 3 | _ + 4 =>
          simp [hapless, Job.new, Job.withMaxRetries, Job.withCompensator, Call.started] at member
    · simp [Call.started] at member
  have apart : hapless.KeepsApart policy (.begin .start .empty hapless) :=
    Job.keepsApart_of_unmentioned unmentioned _
  exact ⟨⟨defers, apart, unmentioned⟩, indifferent_of_keepsApart defers apart⟩

/-- Either way the compensator is called, and what it writes runs into the limit. -/
example :
    ((RetryPolicy.drive ⟨some ⟨50⟩, some ⟨10⟩⟩ hapless 40).result?.isSome &&
      (RetryPolicy.drive ⟨some ⟨50⟩, some ⟨10⟩⟩ (hapless.acting haplessLater) 40).log =
        (RetryPolicy.drive ⟨some ⟨50⟩, some ⟨10⟩⟩ hapless 40).log) = true := by
  decide +kernel

end KeyedJobs
