import KeyedJobs.Proofs.Completion.Gathering
import KeyedJobs.Proofs.Retry.Trace

/-! # The plot of a job

What becomes of a job when nobody else has to do with its completions: which attempts it makes,
whether its compensator is called and how it is resolved. The plot of a job is fixed by the job and
by the plan, and every drive of the job follows it, whatever happens between its steps.
-/

namespace KeyedJobs

/-- The writes that the call starts. -/
def Call.started : Call → List Write
  | .writes started => started
  | .fails _ | .panics _ => []

/-- What is in the store of the completions that have failed when all completions of the call have
ended. -/
def Call.failed (plan : Plan) (call : Call) : List Completion :=
  match call.error? with
  | some error => [.unresolved (.known (.failure error))]
  | none => (promises plan call.started).filterMap Poll.failed?

/-- Of a completion that has failed. -/
inductive Completion.Failed : Completion → Prop where
  | resolved (error : CompletionError) : Failed (.resolved (.failure error))
  | poisoned : Failed .poisoned
  | known (error : CompletionError) : Failed (.unresolved (.known (.failure error)))

/-- What an inspection shows of a completion that is alone in its store. -/
def Completion.inspection (completion : Completion) : Inspection :=
  let alone : Completions := ⟨#[completion], []⟩
  ⟨alone.describe 0, (alone.poll .start 0).1, (alone.poll .start 0).2.describe 0⟩

/-- The call with the completions that it is given numbered in order. -/
def JobCall.renumbered : JobCall → JobCall
  | .attempt number => .attempt number
  | .compensate failed inspections => .compensate (List.range failed.length) inspections

/-- How far a job has come. -/
inductive Plot where
  | ready (calls attempts : Nat)
  | judging (calls attempts : Nat) (failed : List Completion)
  | reverting (attempts : Nat) (failed : List Completion)
  | reverted (attempts : Nat)
  | ended (resolution : Resolution)

/-- How it goes on, and the call that is made on the way. -/
def Plot.next (plan : Plan) (job : Job) : Plot → Plot × List JobCall
  | .ready calls attempts =>
      (.judging (calls + 1) (nextAttempt attempts) ((job.action (calls + 1)).failed plan),
        [.attempt (calls + 1)])
  | .judging calls attempts failed =>
      match Decision.afterAttempt failed.isEmpty attempts job.maxRetries job.hasCompensator with
      | .succeed => (.ended ⟨job.key, .succeeded, attempts, false⟩, [])
      | .retry => (.ready calls attempts, [])
      | .compensate => (.reverting attempts failed, [])
      | .abandon => (.ended ⟨job.key, .abandoned, attempts, false⟩, [])
  | .reverting attempts failed =>
      let inspects := job.compensator.any (·.inspects)
      (.reverted attempts, [.compensate (List.range failed.length)
        (if inspects then failed.map Completion.inspection else [])])
  | .reverted attempts => (.ended ⟨job.key, .abandoned, attempts, true⟩, [])
  | .ended resolution => (.ended resolution, [])

/-- The job after so many turns, with the calls made by then. -/
def Job.story (plan : Plan) (job : Job) : Nat → Plot × List JobCall
  | 0 => (.ready 0 job.attemptCount, [])
  | turns + 1 =>
      let before := job.story plan turns
      ((before.1.next plan job).1, before.2 ++ (before.1.next plan job).2)

variable {plan : Plan} {job : Job} {policy : RetryPolicy} {now : Instant} {cs cs' : Completions}
  {made : List JobCall}

theorem story_of_ended {turns : Nat} {resolution : Resolution}
    (ended : (job.story plan turns).1 = .ended resolution) (more : Nat) :
    job.story plan (turns + more) = job.story plan turns := by
  induction more with
  | zero => rfl
  | succ more ih =>
      rw [Nat.add_succ, Job.story, ih]
      simp only [ended, Plot.next, List.append_nil]
      rw [← ended]

/-- The job comes to its end with these calls and is resolved in this way. -/
def Job.Ends (plan : Plan) (job : Job) (resolution : Resolution) (made : List JobCall) : Prop :=
  ∃ turns, job.story plan turns = (.ended resolution, made)

theorem Job.Ends.unique {resolution resolution' : Resolution} {made made' : List JobCall}
    (ends : job.Ends plan resolution made) (ends' : job.Ends plan resolution' made') :
    resolution = resolution' ∧ made = made' := by
  obtain ⟨turns, ended⟩ := ends
  obtain ⟨turns', ended'⟩ := ends'
  have same : job.story plan turns = job.story plan turns' := by
    rcases Nat.le_total turns turns' with le | le
    · obtain ⟨more, rfl⟩ := Nat.exists_eq_add_of_le le
      exact (story_of_ended (congrArg Prod.fst ended) more).symm
    · obtain ⟨more, rfl⟩ := Nat.exists_eq_add_of_le le
      exact story_of_ended (congrArg Prod.fst ended') more
  rw [ended, ended', Prod.mk.injEq, Plot.ended.injEq] at same
  exact same

theorem Call.failed_failed (plan : Plan) (call : Call) :
    ∀ completion ∈ call.failed plan, completion.Failed := by
  intro completion member
  unfold Call.failed at member
  split at member
  · rw [List.mem_singleton.mp member]
    exact .known _
  · obtain ⟨yielded, -, failed⟩ := List.mem_filterMap.mp member
    unfold Poll.failed? at failed
    split at failed <;> cases failed
    · exact .resolved _
    · exact .poisoned

theorem describe_of_entry {id other : CompletionId}
    (same : cs.entries[id]? = cs'.entries[other]?) : cs.describe id = cs'.describe other := by
  simp only [Completions.describe, Completions.peek, same]

theorem inspection_of_entry {id : CompletionId} {completion : Completion}
    (failed : completion.Failed) (entry : cs.entries[id]? = some completion) (now : Instant) :
    ⟨cs.describe id, (cs.poll now id).1, (cs.poll now id).2.describe id⟩ =
      completion.inspection := by
  have alone : (⟨#[completion], []⟩ : Completions).entries[0]? = some completion := rfl
  have polled : (cs.poll now id).1 = (Completions.poll .start ⟨#[completion], []⟩ 0).1 ∧
      (cs.poll now id).2.entries[id]? =
        (Completions.poll .start ⟨#[completion], []⟩ 0).2.entries[0]? := by
    have inside := (Array.getElem?_eq_some_iff.mp entry).1
    rw [Completions.poll, Completions.poll, entry, alone]
    cases failed with
    | resolved | poisoned => exact ⟨rfl, entry⟩
    | known error => simp [Origin.poll, Completions.conclude, Completions.put, inside]
  rw [Completion.inspection, polled.1, describe_of_entry polled.2,
    describe_of_entry (entry.trans alone.symm)]

theorem inspectEach_failed (tidy : cs.Tidy) {failures : List CompletionId}
    {failed : List Completion}
    (entries : List.Forall₂ (fun id entry => cs.entries[id]? = some entry) failures failed)
    (kinds : ∀ completion ∈ failed, completion.Failed) (distinct : failures.Nodup) :
    (cs.inspectEach now failures).1 = failed.map Completion.inspection := by
  induction failures generalizing cs failed with
  | nil =>
      cases entries
      rfl
  | cons id rest ih =>
      cases entries with
      | @cons _ completion _ failed entry others =>
          obtain ⟨kind, kinds⟩ := List.forall_mem_cons.mp kinds
          obtain ⟨apart, distinct⟩ := List.nodup_cons.mp distinct
          have polled : Completions.Change _ (fun _ => False) cs _ :=
            Completions.change_poll tidy now id
          have further : List.Forall₂ (fun other entry =>
              (cs.poll now id).2.entries[other]? = some entry) rest failed := by
            rw [List.forall₂_iff_get] at others ⊢
            refine ⟨others.1, fun i left right => ?_⟩
            have entry := others.2 i left right
            have inside := (Array.getElem?_eq_some_iff.mp entry).1
            refine (polled.spares _ inside ?_ fun _ => False.elim).entry.trans entry
            intro same
            exact apart (same ▸ List.get_mem rest ⟨i, left⟩)
          rw [Completions.inspectEach, List.map_cons, ← ih polled.tidy further kinds distinct]
          rw [← inspection_of_entry kind entry now]

theorem renumbered_compensate (tidy : cs.Tidy) {outcome : Outcome} {failed : List Completion}
    (shows : outcome.Shows cs failed) (kinds : ∀ completion ∈ failed, completion.Failed)
    {inspects : Bool} {inspections : List Inspection}
    (inspected : (if inspects then cs.inspectEach now outcome.failedCompletions else ([], cs)) =
      (inspections, cs')) :
    (JobCall.compensate outcome.failedCompletions inspections).renumbered =
      .compensate (List.range failed.length)
        (if inspects then failed.map Completion.inspection else []) := by
  obtain ⟨entries, distinct⟩ := shows
  have same : outcome.failedCompletions.length = failed.length := by
    rw [Outcome.failedCompletions, List.length_map, entries.length_eq]
  rw [JobCall.renumbered, same]
  congr 1
  cases inspects with
  | false => exact (congrArg Prod.fst inspected).symm
  | true =>
      rw [if_pos rfl] at inspected ⊢
      rw [← inspectEach_failed tidy (List.forall₂_map_left_iff.mpr entries) kinds distinct]
      exact (congrArg Prod.fst inspected).symm

namespace Drive

variable {d d' : Drive}

/-- How far the job has come that is driven. -/
def plot (plan : Plan) (d : Drive) : Plot :=
  match d.phase with
  | .ready | .pausing _ => .ready d.calls d.job.attemptCount
  | .launched _ | .collecting _ | .judging _ =>
      .judging d.calls d.job.attemptCount ((d.job.action d.calls).failed plan)
  | .reverting _ => .reverting d.job.attemptCount ((d.job.action d.calls).failed plan)
  | .revertLaunched _ | .revertCollecting _ | .reverted => .reverted d.job.attemptCount
  | .ended resolution => .ended resolution

/-- What the drive knows of the last call of the action is what becomes of that call. -/
def Fits (plan : Plan) (d : Drive) (cs : Completions) : Prop :=
  let call := d.job.action d.calls
  match d.phase with
  | .launched writes => call.error? = none ∧
      (Aggregation.begin .start none writes).Gathers plan cs (promises plan call.started)
  | .collecting waiting =>
      call.error? = none ∧ waiting.Gathers plan cs (promises plan call.started)
  | .judging outcome | .reverting outcome => outcome.Shows cs (call.failed plan)
  | _ => True

theorem OfJob.action (ofJob : OfJob job d) : d.job.action = job.action := by rw [← ofJob.kept]

theorem OfJob.maxRetries (ofJob : OfJob job d) : d.job.maxRetries = job.maxRetries := by
  rw [← ofJob.kept]

theorem OfJob.key (ofJob : OfJob job d) : d.job.key = job.key := by rw [← ofJob.kept]

theorem OfJob.dropPanic (ofJob : OfJob job d) : d.job.dropPanic = job.dropPanic := by
  rw [← ofJob.kept]

theorem plot_of_collects {waiting : Aggregation} (waits : d.collects policy now = some waiting) :
    d.plot plan = .judging d.calls d.job.attemptCount ((d.job.action d.calls).failed plan) := by
  unfold collects at waits
  unfold plot
  cases phase : d.phase <;> simp [phase] at waits ⊢

theorem plot_of_revertCollects {waiting : Aggregation}
    (waits : d.revertCollects policy now = some waiting) :
    d.plot plan = .reverted d.job.attemptCount := by
  unfold revertCollects at waits
  unfold plot
  cases phase : d.phase <;> simp [phase] at waits ⊢

/-- A step of a drive goes on in the plot, or only waits. -/
theorem plot_of_driveStep (ofJob : OfJob job d) (tidy : cs.Tidy) (fits : d.Fits plan cs)
    (step : DriveStep policy now cs d d' cs' made) :
    d'.plot plan = d.plot plan ∧ made = [] ∨
      (d.plot plan).next plan job = (d'.plot plan, made.map JobCall.renumbered) := by
  unfold Fits at fits
  -- The compensator is there until it is called.
  have compensator : d.phase.hasReverted = false → d.job.hasCompensator = job.hasCompensator :=
    fun unspent => congrArg Option.isSome (ofJob.compensator unspent)
  cases step with
  | launch phase | fail phase =>
      right
      simp only [plot, phase, Plot.next, counted, ofJob.action]
      rfl
  | wait waits | gather waits =>
      refine .inl ⟨?_, rfl⟩
      rw [plot_of_collects waits]
      rfl
  | goOn phase =>
      refine .inl ⟨?_, rfl⟩
      simp only [plot, phase]
  | succeed phase success =>
      rw [phase] at fits
      rw [fits.isSuccess_eq] at success
      right
      simp only [plot, phase, Plot.next, success, Decision.afterAttempt, finish, ofJob.key]
      rfl
  | retry phase failure left next =>
      rw [phase] at fits
      rw [fits.isSuccess_eq] at failure
      rw [ofJob.maxRetries] at left
      right
      simp only [plot, phase, Plot.next, failure, Decision.afterAttempt, left, next]
      cases policy.backoff <;> rfl
  | compensate phase failure spent present =>
      rw [phase] at fits compensator
      rw [fits.isSuccess_eq] at failure
      rw [ofJob.maxRetries] at spent
      rw [compensator rfl] at present
      right
      simp [plot, phase, Plot.next, failure, Decision.afterAttempt, Nat.not_le.mpr spent, present]
  | abandon phase failure spent absent =>
      rw [phase] at fits compensator
      rw [fits.isSuccess_eq] at failure
      rw [ofJob.maxRetries] at spent
      rw [compensator rfl] at absent
      right
      simp [plot, phase, Plot.next, failure, Decision.afterAttempt, Nat.not_le.mpr spent, absent,
        finish, ofJob.key]
  | skipRevert phase absent => exact absurd absent (ofJob.reverting _ phase)
  | revert phase present inspected | revertFail phase present inspected =>
      rw [phase] at fits
      have same := ofJob.compensator (by rw [phase]; rfl)
      right
      simp only [plot, phase, Plot.next, ← same, present, List.map_singleton,
        renumbered_compensate tidy fits (Call.failed_failed plan _) inspected]
      rfl
  | revertWait waits | revertGather waits =>
      refine .inl ⟨?_, rfl⟩
      rw [plot_of_revertCollects waits]
      rfl
  | close phase =>
      right
      simp only [plot, phase, Plot.next, finish, ofJob.key]
      rfl

/-- The drive finds the store in order, and its own completions as they ought to be. -/
def Heeds (plan : Plan) (d : Drive) (_ : Instant) (cs : Completions) : Prop :=
  cs.Tidy ∧ d.Fits plan cs

theorem plot_of_resolution? {resolution : Resolution} (ended : d.resolution? = some resolution) :
    d.plot plan = .ended resolution := by
  unfold resolution? at ended
  unfold plot
  cases phase : d.phase <;> simp_all

end Drive

namespace Traced

variable {drive : Drive}

/-- A drive comes as far as the job does in some number of turns, with the same calls. -/
theorem story (traced : Traced (Drive.Heeds plan) policy job drive made) :
    ∃ turns, job.story plan turns = (drive.plot plan, made.map JobCall.renumbered) := by
  induction traced with
  | begin => exact ⟨0, rfl⟩
  | step now cs traced going fitting ih =>
      obtain ⟨turns, same⟩ := ih
      rcases Drive.plot_of_driveStep traced.ofJob fitting.1 fitting.2
        (Drive.step_driveStep going) with ⟨waits, none_made⟩ | goes
      · exact ⟨turns, by rw [same, waits, none_made, List.append_nil]⟩
      · exact ⟨turns + 1, by rw [Job.story, same, goes, List.map_append]⟩

theorem ends (traced : Traced (Drive.Heeds plan) policy job drive made) {resolution : Resolution}
    (ended : drive.resolution? = some resolution) :
    job.Ends plan resolution (made.map JobCall.renumbered) := by
  obtain ⟨turns, same⟩ := traced.story
  exact ⟨turns, Drive.plot_of_resolution? ended ▸ same⟩

end Traced

end KeyedJobs
