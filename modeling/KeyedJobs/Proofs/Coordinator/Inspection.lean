import KeyedJobs.Proofs.Completion.Permanence
import KeyedJobs.Proofs.Coordinator.Custody
import KeyedJobs.Proofs.Retry.Trace

/-! # What a compensator can see

When the compensator of a job is called because completions of the last attempt have failed, each of
these shows the failure that was noted for it, whatever else goes on in the coordinator. Two kinds
of failed completions are left out: those whose own task has panicked, and the one that stands for a
call which handed back no completions. They do not show it.
-/

namespace KeyedJobs

open Completions (Upholds)

namespace Drive

variable {policy : RetryPolicy} {now : Instant} {cs cs' : Completions} {d d' : Drive}
  {made : List JobCall}

/-- The failures that the drive has noted in its last attempt can be seen in the store, if the call
of the action has handed back completions. -/
def Evident (cs : Completions) (d : Drive) : Prop :=
  match d.phase with
  | .collecting waiting => waiting.Evident cs
  | .judging outcome | .reverting outcome =>
      (d.job.action d.calls).error? = none → outcome.Evident cs
  | _ => True

theorem Evident.of_upholds (evident : d.Evident cs) (upholds : cs.Upholds cs') :
    d.Evident cs' := by
  unfold Evident at evident ⊢
  cases phase : d.phase with
  | collecting waiting =>
      rw [phase] at evident
      exact fun slot member => (evident slot member).of_upholds upholds
  | judging outcome | reverting outcome =>
      rw [phase] at evident
      exact fun handed failure member => (evident handed failure member).of_upholds upholds
  | _ => trivial

theorem Evident.of_collects (evident : d.Evident cs) {waiting : Aggregation}
    (waits : d.collects policy now = some waiting) : waiting.Evident cs := by
  unfold Evident at evident
  unfold collects at waits
  cases phase : d.phase with
  | launched writes =>
      rw [phase] at waits
      cases waits
      exact Aggregation.evident_begin now policy.completionTimeout writes
  | collecting other =>
      rw [phase] at evident waits
      cases waits
      exact evident
  | _ =>
      rw [phase] at waits
      cases waits

theorem upholds_of_inspected {inspects : Bool} {ids : List CompletionId}
    {inspections : List Inspection}
    (inspected : (if inspects then cs.inspectEach now ids else ([], cs)) = (inspections, cs')) :
    cs.Upholds cs' := by
  cases inspects with
  | false =>
      obtain rfl := congrArg Prod.snd inspected
      exact .refl cs
  | true =>
      obtain rfl := congrArg Prod.snd inspected
      exact Completions.upholds_inspectEach now cs ids

theorem upholds_of_begun {started : List Write} {writes : List CompletionId}
    (begun : cs.startEach started = (writes, cs')) : cs.Upholds cs' := by
  obtain ⟨-, rfl⟩ := Prod.mk.inj begun
  exact Completions.upholds_startEach cs started

theorem upholds_of_driveStep (step : DriveStep policy now cs d d' cs' made) : cs.Upholds cs' := by
  cases step with
  | launch _ _ begun => exact upholds_of_begun begun
  | fail _ _ stands =>
      obtain ⟨-, rfl⟩ := Prod.mk.inj stands
      exact Completions.upholds_add cs _
  | wait _ polled | gather _ polled | revertWait _ polled | revertGather _ polled =>
      exact Aggregation.upholds_of_poll polled
  | revert _ _ inspected _ begun =>
      exact (upholds_of_inspected inspected).trans (upholds_of_begun begun)
  | revertFail _ _ inspected => exact upholds_of_inspected inspected
  | succeed | retry | compensate | abandon | goOn | skipRevert | close => exact .refl cs

theorem Evident.of_driveStep (evident : d.Evident cs)
    (step : DriveStep policy now cs d d' cs' made) : d'.Evident cs' := by
  cases step with
  | fail phase call stands =>
      intro (handed : (d.job.action (d.calls + 1)).error? = none)
      rw [handed] at call
      cases call
  | wait waits polled => exact (evident.of_collects waits).poll polled
  | gather waits polled =>
      intro _
      exact ((evident.of_collects waits).poll polled).outcome
  | compensate phase =>
      unfold Evident at evident
      rw [phase] at evident
      exact evident
  | retry _ _ _ next =>
      unfold Evident
      rw [next]
      cases policy.backoff <;> trivial
  | launch | succeed | abandon | goOn | skipRevert | revert | revertFail | revertWait
  | revertGather | close => trivial

theorem reverting_of_compensate {failed : List CompletionId} {inspections : List Inspection}
    (called : .compensate failed inspections ∈ (d.step policy now cs).made) :
    ∃ outcome, d.phase = .reverting outcome ∧ failed = outcome.failedCompletions := by
  cases going : d.resolution? with
  | some resolution =>
      unfold resolution? at going
      cases phase : d.phase with
      | ended => simp [step, phase] at called
      | _ => simp [phase] at going
  | none =>
      have step : DriveStep policy now cs d _ _ _ := step_driveStep going
      revert called step
      generalize (d.step policy now cs).drive = d'
      generalize (d.step policy now cs).completions = cs'
      generalize (d.step policy now cs).made = made
      intro called step
      cases step with
      | revert phase | revertFail phase =>
          obtain ⟨rfl, -⟩ := JobCall.compensate.inj (List.mem_singleton.mp called)
          exact ⟨_, phase, rfl⟩
      | launch | fail => cases List.mem_singleton.mp called
      | _ => cases called

theorem compensate_of_reverting {outcome : Outcome} (phase : d.phase = .reverting outcome)
    (present : d.job.hasCompensator = true) :
    ∃ inspections, .compensate outcome.failedCompletions inspections ∈
      (d.step policy now cs).made := by
  obtain ⟨compensator, found⟩ := Option.isSome_iff_exists.mp present
  simp only [step, phase, revert, found]
  split <;> exact ⟨_, List.mem_singleton.mpr rfl⟩

end Drive

/-- What the worker's drive has noted can be seen in the store. -/
def Worker.Evident (cs : Completions) : Worker → Prop
  | .driving _ drive => drive.Evident cs
  | _ => True

theorem Worker.Evident.of_upholds {cs cs' : Completions} {worker : Worker}
    (evident : worker.Evident cs) (upholds : cs.Upholds cs') : worker.Evident cs' := by
  cases worker with
  | driving ticket drive => exact Drive.Evident.of_upholds evident upholds
  | _ => trivial

/-- A peek shows the failure and the description tells its message. -/
structure Failure.Shown (cs : Completions) (failure : Failure) : Prop where
  peek : cs.peek failure.completion = .ok (some (.failure failure.error))
  describe : cs.describe failure.completion =
    .ok ⟨"PendingCompletion", [("state", Text.quoted ("failed: " ++ failure.error.text))]⟩

theorem Failure.Evident.shown {cs : Completions} {failure : Failure} (evident : failure.Evident cs)
    (untimed : ∀ limit, failure.error ≠ .timedOut limit)
    (sound : cs.entries[failure.completion]? ≠ some .poisoned) : failure.Shown cs := by
  cases evident with
  | timedOut limit error => exact absurd error (untimed limit)
  | poisoned entry => exact absurd entry sound
  | resolved entry =>
      have peek : cs.peek failure.completion = .ok (some (.failure failure.error)) := by
        rw [Completions.peek, entry]
      exact ⟨peek, by rw [Completions.describe, peek]; rfl⟩

namespace Coordinator

variable {config : Config} {s t : Coordinator} {q q' : KeyQueue Ticket}

theorem upholds_of_workerStep {old new : Worker} (step : WorkerStep s q old new t q') :
    s.completions.Upholds t.completions := by
  rcases store_of_workerStep step with ⟨store, -⟩ | ⟨ticket, drive, -, going, -, stored⟩
  · rw [store]
    exact .refl s.completions
  · rw [stored]
    exact Drive.upholds_of_driveStep (Drive.step_driveStep going)

theorem evident_of_workerStep {old new : Worker} (step : WorkerStep s q old new t q')
    (evident : old.Evident s.completions) : new.Evident t.completions := by
  rcases store_of_workerStep step with ⟨-, begins⟩ | ⟨ticket, drive, rfl, going, rfl, stored⟩
  · cases new with
    | driving ticket drive =>
        obtain rfl := begins ticket drive rfl
        trivial
    | _ => trivial
  · rw [stored]
    exact Drive.Evident.of_driveStep evident (Drive.step_driveStep going)

theorem evident_of_transition {m : Move} (move : Transition s q m t q')
    (evident : ∀ worker ∈ s.workers, worker.Evident s.completions) :
    ∀ worker ∈ t.workers, worker.Evident t.completions := by
  cases move with
  | @worker i old new t q' found step =>
      have upholds : s.completions.Upholds t.completions := upholds_of_workerStep step
      intro worker member
      rcases List.mem_or_eq_of_mem_set member with present | rfl
      · rw [workers_of_workerStep step] at present
        exact (evident worker present).of_upholds upholds
      · have before := evident old (List.mem_of_getElem? found)
        have after : worker.Evident t.completions := evident_of_workerStep step before
        exact after
  | @call i old new t q' found step =>
      intro worker member
      have same : worker ∈ s.workers := workers_of_callStep step ▸ member
      have upholds : s.completions.Upholds t.completions :=
        completions_of_callStep step ▸ .refl s.completions
      exact (evident worker same).of_upholds upholds
  | resolve gate result =>
      intro worker member
      exact (evident worker member).of_upholds (Completions.upholds_resolve _ gate result)
  | enter | exit | elapse | abandon => exact evident

theorem Arises.evident (arises : Arises config s) :
    ∀ worker ∈ s.workers, worker.Evident s.completions := by
  have starts : ∀ worker ∈ (fresh config).workers, worker.Evident (fresh config).completions := by
    intro worker member
    rw [List.eq_of_mem_replicate member]
    trivial
  obtain ⟨q, -, evident⟩ := arises.induct
    (P := fun s _ => ∀ worker ∈ s.workers, worker.Evident s.completions)
    starts fun _ _ evident move => evident_of_transition move evident
  exact evident

/-- When a compensator is called, each completion that it is given shows its failure and tells the
message of it. This is said of attempts whose call has handed back completions, and of completions
that have neither run out of time nor panicked themselves. -/
theorem shown_of_arises (arises : Arises config s) {i : Nat} {ticket : Ticket} {drive : Drive}
    (found : s.workers[i]? = some (.driving ticket drive)) {failed : List CompletionId}
    {inspections : List Inspection}
    (called : .compensate failed inspections ∈ (drive.step s.policy s.now s.completions).made)
    (handed : (drive.job.action drive.calls).error? = none) :
    ∃ outcome, drive.phase = .reverting outcome ∧ failed = outcome.failedCompletions ∧
      ∀ failure ∈ outcome.failures, (∀ limit, failure.error ≠ .timedOut limit) →
        s.completions.entries[failure.completion]? ≠ some .poisoned →
          failure.Shown s.completions := by
  obtain ⟨outcome, phase, given⟩ := Drive.reverting_of_compensate called
  refine ⟨outcome, phase, given, ?_⟩
  intro failure member untimed sound
  have evident : drive.Evident s.completions := arises.evident _ (List.mem_of_getElem? found)
  unfold Drive.Evident at evident
  rw [phase] at evident
  exact (evident handed failure member).shown untimed sound

/-- The job with a compensator that starts no writes. -/
def reverted (job : Job) : Job :=
  job.withCompensator ⟨fun _ => .writes [], false, fun _ => []⟩

/-- A worker takes the one job that is enqueued and makes so many steps of its drive. -/
def driving (job : Job) (steps : Nat) : List Move :=
  .begin (.enqueue job) :: List.replicate 4 (.call 0) ++ List.replicate (3 + steps) (.worker 0)

/-- Whether the worker is about to call a compensator for the outcome. -/
def reverts (outcome : Outcome) : Worker → Bool
  | .driving _ drive => drive.phase = .reverting outcome && drive.job.hasCompensator
  | _ => false

theorem called_of_reverts {i : Nat} {outcome : Outcome}
    (standing : s.workers[i]?.any (reverts outcome) = true) :
    ∃ ticket drive inspections, s.workers[i]? = some (.driving ticket drive) ∧
      drive.phase = .reverting outcome ∧ .compensate outcome.failedCompletions inspections ∈
        (drive.step s.policy s.now s.completions).made := by
  cases found : s.workers[i]? with
  | none => simp [found] at standing
  | some worker =>
      rw [found] at standing
      cases worker with
      | driving ticket drive =>
          simp only [Option.any_some, reverts, Bool.and_eq_true, decide_eq_true_eq] at standing
          obtain ⟨phase, present⟩ := standing
          obtain ⟨inspections, called⟩ := Drive.compensate_of_reverting phase present
          exact ⟨ticket, drive, inspections, rfl, phase, called⟩
      | _ => cases standing

/-- Of four writes one fails at once, one is dropped and one fails in its task. -/
theorem shown_of_three_failures :
    let job := reverted (Job.new "A" fun _ => .writes
      [.failed ⟨["refused"]⟩, .succeeded, .dropped, .task none (.fails ⟨["sending", "no route"]⟩)])
    let s := (fresh (.default .single)).follow (driving job 3)
    ∃ ticket drive inspections, (Arises (.default .single) s ∧
        s.workers[0]? = some (.driving ticket drive) ∧
        .compensate [0, 2, 3] inspections ∈ (drive.step s.policy s.now s.completions).made ∧
        (drive.job.action drive.calls).error? = none) ∧
      ∃ outcome, drive.phase = .reverting outcome ∧ [0, 2, 3] = outcome.failedCompletions ∧
        ∀ failure ∈ outcome.failures, (∀ limit, failure.error ≠ .timedOut limit) →
          s.completions.entries[failure.completion]? ≠ some .poisoned →
            failure.Shown s.completions := by
  intro job s
  have arises : Arises (.default .single) s := .follow rfl (by decide +kernel)
  have standing : s.workers[0]?.any (reverts ⟨4, [⟨0, .failed ⟨["refused"]⟩⟩, ⟨2, .dropped⟩,
      ⟨3, .failed ⟨["sending", "no route"]⟩⟩]⟩) = true := by decide +kernel
  have returned : s.workers[0]?.any (fun
    | .driving _ drive => (drive.job.action drive.calls).error?.isNone
    | _ => false) = true := by decide +kernel
  obtain ⟨ticket, drive, inspections, found, phase, called⟩ := called_of_reverts standing
  have handed : (drive.job.action drive.calls).error? = none := by simpa [found] using returned
  exact ⟨ticket, drive, inspections, ⟨arises, found, called, handed⟩,
    shown_of_arises arises found called handed⟩

/-- The completion that stands for a failed call is described as pending when the compensator is
called with it, and describing a completion whose task has panicked panics. -/
theorem unshown_of_failed_call_and_panicked_task :
    let job := reverted (Job.new "A" fun _ => .fails ⟨["boom"]⟩)
    let job' := reverted (Job.new "A" fun _ => .writes [.task none (.panics (.text "boom"))])
    let s := (fresh (.default .single)).follow (driving job 2)
    let s' := (fresh (.default .single)).follow (driving job' 3)
    let failure : Failure := ⟨0, .failed ⟨["boom"]⟩⟩
    let failure' : Failure := ⟨0, .panicked "boom"⟩
    (Arises (.default .single) s ∧ s.workers[0]?.any (reverts ⟨1, [failure]⟩) = true ∧
      s.completions.peek failure.completion = .ok none ∧
      s.completions.describe failure.completion =
        .ok ⟨"PendingCompletion", [("state", Text.quoted "pending")]⟩) ∧
    (Arises (.default .single) s' ∧ s'.workers[0]?.any (reverts ⟨1, [failure']⟩) = true ∧
      s'.completions.describe failure'.completion =
        .error (.text "inner future panicked during poll")) := by
  intro job job' s s' failure failure'
  have arises : Arises (.default .single) s := .follow rfl (by decide +kernel)
  have arises' : Arises (.default .single) s' := .follow rfl (by decide +kernel)
  have standing : s.workers[0]?.any (reverts ⟨1, [failure]⟩) = true := by decide +kernel
  have standing' : s'.workers[0]?.any (reverts ⟨1, [failure']⟩) = true := by decide +kernel
  have unpolled : s.completions.entries[failure.completion]? =
      some (.unresolved (.known (.failure failure.error))) := by decide +kernel
  have poisoned : s'.completions.entries[failure'.completion]? = some .poisoned := by
    decide +kernel
  have peek : s.completions.peek failure.completion = .ok none := by
    rw [Completions.peek, unpolled]
  have peek' : s'.completions.peek failure'.completion = .error Completions.poisonedPanic := by
    rw [Completions.peek, poisoned]
  refine ⟨⟨arises, standing, peek, ?_⟩, arises', standing', ?_⟩
  · rw [Completions.describe, peek]
    rfl
  · rw [Completions.describe, peek']
    rfl

end Coordinator

end KeyedJobs
