import KeyedJobs.Proofs.Completion.Lifetimes
import KeyedJobs.Proofs.Completion.Passing
import KeyedJobs.Proofs.Retry.Protocol

/-! # What a time limit does for a job

With a limit on its completions no wait of a drive goes on for ever, as long as time passes: at the
first turn after the limit has run out, a round of polls decides every position that is still open.
So a job with a last attempt comes to its end, whatever becomes of what it and its compensator write,
and a write that nobody ends fails its attempt for having run out of time.
-/

namespace KeyedJobs

open SoloRun (within)

namespace Completions

variable {cs cs' : Completions} {id : CompletionId} {now : Instant}

/-- What cannot be had now cannot be had after changes that leave it, and what it carries over, as it
is or pending. -/
theorem isReady_eq_false_of_entries
    (kept : ∀ id, cs.isReady now id = false → cs'.entries[id]? = cs.entries[id]? ∨
      ∃ origin, cs'.entries[id]? = some (.unresolved origin) ∧ (origin.poll now).1 = .pending)
    (unready : cs.isReady now id = false) : cs'.isReady now id = false := by
  induction id using Nat.strongRecOn with
  | ind id ih =>
      rcases kept id unready with same | ⟨origin, entry, pending⟩
      · rw [isReady] at unready ⊢
        rw [same]
        cases entry : cs.entries[id]? with
        | none => rfl
        | some completion =>
            rw [entry] at unready
            cases completion with
            | chained source =>
                by_cases older : source < id
                · simp only [older, if_true] at unready ⊢
                  exact ih source older unready
                · simp only [older, if_false]
            | _ => exact unready
      · rw [isReady, entry]
        simp [pending]

theorem isReady_poll_of_unready (unready : cs.isReady now id = false) (other : CompletionId) :
    (cs.poll now other).2.isReady now id = false := by
  refine isReady_eq_false_of_entries (fun id unready => ?_) unready
  fun_induction Completions.poll now cs other with
  | case1 | case2 | case3 | case6 => exact .inl rfl
  | case4 other origin present yielded after polled =>
      by_cases same : other = id
      · subst same
        rw [isReady, present] at unready
        obtain rfl : yielded = .pending := by simpa [polled] using unready
        have vain : (origin.poll now).1 = .pending := by rw [polled]
        have again := Origin.poll_poll_of_pending vain
        rw [polled] at again
        right
        exact ⟨after, entry_put (Array.getElem?_eq_some_iff.mp present).1 _, by rw [again]⟩
      · left
        rw [conclude_of_ne same]
        simp [put, same]
  | case5 other source present older yielded after polled ih =>
      rw [polled] at ih
      by_cases pending : yielded.carriedOver = .pending
      · rw [pending]
        exact ih
      · rw [conclude_of_ne]
        · exact ih
        · rintro rfl
          have ready : cs.isReady now other = true := by
            rw [isReady_iff, Completions.poll, present]
            simpa [older, polled] using pending
          simp [unready] at ready

end Completions

variable {policy : RetryPolicy} {around : Surroundings} {job : Job} {scene : Scene} {run : SoloRun}
  {turn : Nat} {span : Duration} {now due : Instant} {cs cs' : Completions} {id : CompletionId}
  {d d' : Drive} {made : List JobCall} {waiting : Aggregation}

namespace Aggregation

theorem mem_pollSlots_of_unready (limit : Option TimeLimit) {slots : List Slot}
    (unready : cs.isReady now id = false) (waits : ⟨id, none⟩ ∈ slots) :
    ⟨id, Poll.pending.result? now limit⟩ ∈ (pollSlots now limit cs slots).1 := by
  induction slots generalizing cs with
  | nil => cases waits
  | cons slot rest ih =>
      rw [pollSlots, List.mem_cons]
      rcases List.mem_cons.mp waits with rfl | later
      · have pending : (cs.poll now id).1 = .pending := by
          by_contra ready
          simp [(Completions.isReady_iff now cs id).mpr ready] at unready
        left
        simp only [Slot.poll, pending]
      · right
        refine ih ?_ later
        unfold Slot.poll
        split
        · exact unready
        · exact Completions.isReady_poll_of_unready unready slot.completion

/-- Some position is open, and the limit is of this length. -/
structure Limited (span : Duration) (waiting : Aggregation) : Prop where
  limit : waiting.limit.map (·.span) = some span
  incomplete : waiting.isComplete = false

/-- The instant at which the limit runs out. -/
def due? (waiting : Aggregation) : Option Instant :=
  waiting.limit.map (·.expiresAt)

theorem Limited.exists_due (limited : waiting.Limited span) : ∃ due, waiting.due? = some due := by
  obtain ⟨limit, equal, -⟩ := Option.map_eq_some_iff.mp limited.limit
  exact ⟨limit.expiresAt, by rw [due?, equal]; rfl⟩

theorem isOver_of_due? (due_eq : waiting.due? = some due) (expired : due ≤ now) :
    waiting.limit.any (·.isOver now) = true := by
  obtain ⟨limit, equal, rfl⟩ := Option.map_eq_some_iff.mp due_eq
  rw [equal]
  exact decide_eq_true expired

theorem Limited.isReady (limited : waiting.Limited span) (due_eq : waiting.due? = some due)
    (expired : due ≤ now) : waiting.isReady now cs = true := by
  obtain ⟨slot, member, undecided⟩ := exists_open limited.incomplete
  refine List.any_eq_true.mpr ⟨slot, member, ?_⟩
  simp [undecided, isOver_of_due? due_eq expired]

theorem isComplete_poll (due_eq : waiting.due? = some due) (expired : due ≤ now) :
    (waiting.poll now cs).1.isComplete = true :=
  List.all_eq_true.mpr (isSome_pollSlots (isOver_of_due? due_eq expired) waiting.slots)

theorem exists_mem_poll_of_unready (limit : waiting.limit.map (·.span) = some span)
    (unready : cs.isReady now id = false) (waits : ⟨id, none⟩ ∈ waiting.slots) :
    if (waiting.poll now cs).1.isComplete then
      ⟨id, .timedOut span⟩ ∈ (waiting.poll now cs).1.outcome.failures
    else ⟨id, none⟩ ∈ (waiting.poll now cs).1.slots := by
  obtain ⟨timeLimit, equal, rfl⟩ := Option.map_eq_some_iff.mp limit
  have left := mem_pollSlots_of_unready waiting.limit unready waits
  by_cases expired : timeLimit.expiresAt ≤ now
  · rw [if_pos (isComplete_poll (by rw [due?, equal]; rfl) expired)]
    refine List.mem_filterMap.mpr ⟨_, left, ?_⟩
    simp [equal, Poll.result?, TimeLimit.isOver, expired, Slot.failure?]
  · have open_ : Poll.pending.result? now waiting.limit = none := by
      simp [equal, Poll.result?, TimeLimit.isOver, expired]
    rw [open_] at left
    have stays : (waiting.poll now cs).1.isComplete ≠ true := by
      intro complete
      exact absurd (List.all_eq_true.mp complete _ left) (by simp)
    rw [if_neg stays]
    exact left

end Aggregation

namespace Phase

/-- The instant at which the wait is over at the latest. -/
def due? : Phase → Option Instant
  | .collecting waiting | .revertCollecting waiting => waiting.due?
  | .pausing due => some due
  | _ => none

/-- Completions are waited for only with a limit of this length. -/
def Limited (span : Duration) : Phase → Prop
  | .collecting waiting | .revertCollecting waiting => waiting.Limited span
  | _ => True

theorem Limited.exists_due {phase : Phase} (limited : phase.Limited span)
    (waits : phase.waits = true) : ∃ due, phase.due? = some due := by
  cases phase with
  | collecting waiting | revertCollecting waiting => exact Aggregation.Limited.exists_due limited
  | pausing due => exact ⟨due, rfl⟩
  | _ => cases waits

end Phase

theorem Drive.limit_of_waits (limit : policy.completionTimeout = some span)
    (limited : d.phase.Limited span)
    (waits : d.collects policy now = some waiting ∨ d.revertCollects policy now = some waiting) :
    waiting.limit.map (·.span) = some span := by
  unfold Drive.collects Drive.revertCollects at waits
  cases phase : d.phase <;> rw [phase] at waits limited <;> rcases waits with found | found <;>
    cases found
  case launched | revertLaunched => rw [limit]; rfl
  case collecting | revertCollecting => exact limited.limit

theorem Phase.Limited.of_driveStep (limit : policy.completionTimeout = some span)
    (limited : d.phase.Limited span) (step : DriveStep policy now cs d d' cs' made) :
    d'.phase.Limited span := by
  cases step with
  | wait waits polled incomplete =>
      have same := Drive.limit_of_waits limit limited (.inl waits)
      obtain ⟨rfl, -⟩ := Prod.mk.inj polled
      exact ⟨same, incomplete⟩
  | revertWait waits polled incomplete =>
      have same := Drive.limit_of_waits limit limited (.inr waits)
      obtain ⟨rfl, -⟩ := Prod.mk.inj polled
      exact ⟨same, incomplete⟩
  | retry _ _ _ next =>
      rw [next]
      cases policy.backoff <;> trivial
  | _ => trivial

theorem limited_within (limit : policy.completionTimeout = some span) (around : Surroundings)
    (job : Job) (turn : Nat) : (within policy around job turn).drive.phase.Limited span := by
  induction turn with
  | zero => trivial
  | succ turn ih =>
      rw [within, SoloRun.tick]
      split
      · rename_i possible
        exact ih.of_driveStep limit (Drive.step_driveStep (Drive.resolution?_of_canStep possible))
      · exact ih

theorem tick_of_due? (policy : RetryPolicy) (run : SoloRun) (limited : run.drive.phase.Limited span)
    (due_eq : run.drive.phase.due? = some due) :
    (run.tick policy).drive.phase.waits = false ∨
      (run.tick policy).drive.phase.due? = some due ∧ run.now < due := by
  obtain ⟨now, cs, d, log, made⟩ := run
  dsimp only at limited due_eq ⊢
  unfold SoloRun.tick SoloRun.step
  cases phase : d.phase with
  | collecting waiting | revertCollecting waiting =>
      rw [phase] at limited due_eq
      have limited : waiting.Limited span := limited
      have due_eq : waiting.due? = some due := due_eq
      by_cases ready : waiting.isReady now cs = true
      · simp only [Drive.canStep, Drive.step, phase, ready, if_true, Drive.collect,
          Drive.collectRevert]
        by_cases complete : (waiting.poll now cs).1.isComplete = true
        · simp [complete, Phase.waits, Drive.closeRevert]
        · have early : now < due := by
            apply Nat.not_le.mp
            intro expired
            exact complete (Aggregation.isComplete_poll due_eq expired)
          simp only [complete, Bool.false_eq_true, if_false]
          exact .inr ⟨due_eq, early⟩
      · have early : now < due := by
          apply Nat.not_le.mp
          intro expired
          exact ready (limited.isReady due_eq expired)
        simp only [Drive.canStep, phase, ready, Bool.false_eq_true, if_false]
        exact .inr ⟨due_eq, early⟩
  | pausing instant =>
      rw [phase] at due_eq
      obtain rfl := Option.some.inj due_eq
      by_cases expired : instant ≤ now
      · simp [Drive.canStep, Drive.step, phase, expired, Phase.waits]
      · simp [Drive.canStep, phase, expired, Phase.due?, Nat.not_le.mp expired]
  | _ =>
      rw [phase] at due_eq
      cases due_eq

/-- After every turn some later one is met at any instant or after it. -/
def TimePasses (around : Surroundings) (runs : Nat → SoloRun) : Prop :=
  ∀ turn due, ∃ later, turn ≤ later ∧ due ≤ ((runs later).met around later).now

theorem due?_succ (limit : policy.completionTimeout = some span)
    (due_eq : (within policy around job turn).drive.phase.due? = some due) :
    (within policy around job (turn + 1)).drive.phase.waits = false ∨
      (within policy around job (turn + 1)).drive.phase.due? = some due ∧
        ((within policy around job turn).met around turn).now < due :=
  tick_of_due? policy ((within policy around job turn).met around turn)
    (limited_within limit around job turn) due_eq

theorem everyWaitEnds_of_limit (limit : policy.completionTimeout = some span)
    (passes : TimePasses around (within policy around job)) :
    EveryWaitEnds (within policy around job) := by
  intro turn waits
  obtain ⟨due, due_eq⟩ := (limited_within limit around job turn).exists_due waits
  have kept (more : Nat) :
      (∃ later, turn ≤ later ∧ (within policy around job later).drive.phase.waits = false) ∨
        (within policy around job (turn + more)).drive.phase.due? = some due := by
    induction more with
    | zero => exact .inr due_eq
    | succ more ih =>
        rcases ih with ended | due_eq
        · exact .inl ended
        · rcases due?_succ limit due_eq with ended | ⟨due_eq, -⟩
          · exact .inl ⟨turn + more + 1, by omega, ended⟩
          · exact .inr due_eq
  obtain ⟨later, le, expired⟩ := passes turn due
  obtain ⟨more, rfl⟩ := Nat.exists_eq_add_of_le le
  rcases kept more with ended | due_eq
  · exact ended
  · rcases due?_succ limit due_eq with ended | ⟨-, early⟩
    · exact ⟨turn + more + 1, by omega, ended⟩
    · exact absurd expired (Nat.not_le.mpr early)

namespace Scene

theorem Holds.rank_lt (holds : scene.Holds job run) (limited : job.maxRetries < maxAttempts)
    (unended : scene.resolution? job = none) : scene.rank job < 2 * (job.maxRetries + 1) + 3 := by
  have stands := holds.stands
  generalize run.drive.phase = phase at stands
  cases stands with
  | success | undone | failure => cases unended
  | _ =>
      simp only [rank]
      omega

theorem Holds.ends (ends : EveryWaitEnds (within policy around job))
    (limited : job.maxRetries < maxAttempts)
    (holds : scene.Holds job (within policy around job turn)) :
    ∃ later scene' resolution, Holds job scene' (within policy around job later) ∧
      scene'.resolution? job = some resolution := by
  induction left : 2 * (job.maxRetries + 1) + 3 - scene.rank job using Nat.strongRecOn
    generalizing scene turn with
  | ind left ih =>
      cases last : scene.resolution? job with
      | some resolution => exact ⟨turn, scene, resolution, holds, last⟩
      | none =>
          obtain ⟨later, phase, scene', leads, after⟩ := holds.leads ends last
          have before := holds.rank_lt limited last
          have risen := leads.rank_lt
          exact ih _ (by omega) after rfl

theorem key_of_resolution? {resolution : Resolution} (last : scene.resolution? job = some resolution) :
    resolution.key = job.key ∧ (resolution.state = .succeeded ∨ resolution.state = .abandoned) := by
  cases scene with
  | undone | success | failure =>
      obtain rfl := Option.some.inj last
      simp
  | _ => cases last

end Scene

/-- From this turn on, no turn finds that the completion is there. -/
def NeverComes (around : Surroundings) (runs : Nat → SoloRun) (turn : Nat) (id : CompletionId) :
    Prop :=
  ∀ later, turn ≤ later →
    ((runs later).met around later).completions.isReady ((runs later).met around later).now id = false

/-- The completion keeps the attempt from going on, or has failed it by running out of time. -/
def Phase.Hangs (span : Duration) (id : CompletionId) : Phase → Prop
  | .collecting waiting => ⟨id, none⟩ ∈ waiting.slots
  | .judging outcome => ⟨id, .timedOut span⟩ ∈ outcome.failures
  | _ => False

theorem hangs_collect (cs' : Completions) (limit : waiting.limit.map (·.span) = some span)
    (unready : cs.isReady now id = false) (waits : ⟨id, none⟩ ∈ waiting.slots) :
    (d.collect (waiting.poll now cs).1 cs').drive.phase.Hangs span id := by
  have polled := Aggregation.exists_mem_poll_of_unready limit unready waits
  unfold Drive.collect
  dsimp only
  split <;> rename_i complete <;> simpa [complete, Phase.Hangs] using polled

theorem hangs_tick (run : SoloRun) (limit : policy.completionTimeout = some span)
    (limited : run.drive.phase.Limited span)
    (unready : run.completions.isReady run.now id = false)
    (hangs : (∃ writes, run.drive.phase = .launched writes ∧ id ∈ writes) ∨
      ∃ waiting, run.drive.phase = .collecting waiting ∧ ⟨id, none⟩ ∈ waiting.slots) :
    (run.tick policy).drive.phase.Hangs span id ∧ (run.tick policy).drive.calls = run.drive.calls := by
  unfold SoloRun.tick SoloRun.step
  rcases hangs with ⟨writes, phase, member⟩ | ⟨waiting, phase, waits⟩
  · simp only [Drive.canStep, Drive.step, phase, if_true]
    refine ⟨hangs_collect _ (by rw [limit]; rfl) unready ?_, rfl⟩
    exact List.mem_map.mpr ⟨id, member, rfl⟩
  · rw [phase] at limited
    simp only [Drive.canStep, Drive.step, phase]
    split
    · exact ⟨hangs_collect (waiting.poll run.now run.completions).2 limited.limit unready waits, rfl⟩
    · rw [phase]
      exact ⟨waits, rfl⟩

theorem hangs_succ (limit : policy.completionTimeout = some span)
    (never : NeverComes around (within policy around job) turn id)
    (hangs : (∃ writes, (within policy around job turn).drive.phase = .launched writes ∧ id ∈ writes) ∨
      ∃ waiting, (within policy around job turn).drive.phase = .collecting waiting ∧
        ⟨id, none⟩ ∈ waiting.slots) :
    (within policy around job (turn + 1)).drive.phase.Hangs span id ∧
      (within policy around job (turn + 1)).drive.calls =
        (within policy around job turn).drive.calls :=
  hangs_tick ((within policy around job turn).met around turn) limit
    (limited_within limit around job turn) (never turn (Nat.le_refl turn)) hangs

theorem comes_of_hangs {distance : Nat} (limit : policy.completionTimeout = some span)
    (never : NeverComes around (within policy around job) turn id)
    (hangs : (within policy around job turn).drive.phase.Hangs span id)
    (passed : (within policy around job (turn + distance)).drive.phase.waits = false) :
    ∃ outcome, ⟨id, .timedOut span⟩ ∈ outcome.failures ∧
      Comes (within policy around job) (within policy around job turn).drive.calls outcome := by
  induction distance generalizing turn with
  | zero =>
      cases phase : (within policy around job turn).drive.phase with
      | judging outcome =>
          rw [phase] at hangs
          exact ⟨outcome, hangs, turn, phase, rfl⟩
      | collecting waiting => simp [phase, Phase.waits] at passed
      | _ =>
          rw [phase] at hangs
          cases hangs
  | succ distance ih =>
      cases phase : (within policy around job turn).drive.phase with
      | judging outcome =>
          rw [phase] at hangs
          exact ⟨outcome, hangs, turn, phase, rfl⟩
      | collecting waiting =>
          rw [phase] at hangs
          obtain ⟨hangs, calls⟩ := hangs_succ limit never (.inr ⟨waiting, phase, hangs⟩)
          rw [← calls]
          refine ih (fun later le => never later (by omega)) hangs ?_
          rwa [Nat.add_assoc, Nat.add_comm 1]
      | _ =>
          rw [phase] at hangs
          cases hangs

/-- What a limit on completions does for a job. -/
structure Bounded (span : Duration) (job : Job) (around : Surroundings) (runs : Nat → SoloRun) :
    Prop where
  /-- The drive returns, and the job has succeeded or been abandoned. -/
  returns : ∃ turn resolution, (runs turn).result? = some (.ok resolution) ∧
    resolution.key = job.key ∧ (resolution.state = .succeeded ∨ resolution.state = .abandoned)
  /-- A completion that never comes fails the attempt that has handed it back, for having taken
  longer than this. -/
  timesOut {turn writes id} (launched : (runs turn).drive.phase = .launched writes)
    (member : id ∈ writes) (never : NeverComes around runs turn id) :
    ∃ outcome, Comes runs (runs turn).drive.calls outcome ∧ outcome.isSuccess = false ∧
      ⟨id, .timedOut span⟩ ∈ outcome.failures

/-- With a limit on completions a fresh job is driven to its end, whatever its surroundings do, if
time passes, if it has a last attempt and if letting go of it does not panic. -/
theorem bounded_of_limit (limit : policy.completionTimeout = some span)
    (fresh : job.attemptCount = 0) (limited : job.maxRetries < maxAttempts)
    (calm : job.dropPanic = none) (passes : TimePasses around (within policy around job)) :
    Bounded span job around (within policy around job) where
  returns := by
    have ends := everyWaitEnds_of_limit limit passes
    have start : Scene.start.Holds job (within policy around job 0) := .begin fresh .start .empty
    obtain ⟨later, scene, resolution, holds, last⟩ := start.ends ends limited
    obtain ⟨turn, returned, -⟩ := holds.closes calm last
    exact ⟨turn, resolution, returned, Scene.key_of_resolution? last⟩
  timesOut := by
    intro turn writes id launched member never
    obtain ⟨hangs, calls⟩ := hangs_succ limit never (.inl ⟨writes, launched, member⟩)
    have passed : ∃ later, turn + 1 ≤ later ∧
        (within policy around job later).drive.phase.waits = false := by
      cases waits : (within policy around job (turn + 1)).drive.phase.waits with
      | true => exact everyWaitEnds_of_limit limit passes (turn + 1) waits
      | false => exact ⟨turn + 1, Nat.le_refl _, waits⟩
    obtain ⟨later, le, passed⟩ := passed
    obtain ⟨distance, rfl⟩ := Nat.exists_eq_add_of_le le
    obtain ⟨outcome, late, comes⟩ :=
      comes_of_hangs limit (fun later le => never later (by omega)) hangs passed
    rw [calls] at comes
    refine ⟨outcome, comes, ?_, late⟩
    exact List.isEmpty_eq_false_iff_exists_mem.mpr ⟨_, late⟩

/-- Nothing happens but that time passes. -/
def ticking : Surroundings := fun _ (now, cs) => (now + 1, cs)

theorem timePasses_ticking (policy : RetryPolicy) (job : Job) :
    TimePasses ticking (within policy ticking job) := by
  have reads (turn : Nat) : turn ≤ ((within policy ticking job turn).met ticking turn).now := by
    induction turn with
    | zero => exact Nat.zero_le _
    | succ turn ih =>
        have kept : (within policy ticking job (turn + 1)).now =
            ((within policy ticking job turn).met ticking turn).now := by
          rw [within, SoloRun.tick]
          split <;> rfl
        have passed : ((within policy ticking job (turn + 1)).met ticking (turn + 1)).now =
            (within policy ticking job (turn + 1)).now + 1 := rfl
        rw [passed, kept]
        exact Nat.succ_le_succ ih
  intro turn due
  exact ⟨turn + due, Nat.le_add_right turn due, Nat.le_trans (Nat.le_add_left due turn) (reads _)⟩

/-- Its writes stay pending, have nobody left who could end them, or panic, and the compensator waits
for the same writes again. -/
def stuck : Job :=
  ((Job.new "A" fun _ => .writes [.never, .dropped, .task none (.panics (.text "boom"))]).withMaxRetries
    1).withCompensator ⟨fun failed => .writes (failed.map .existing), true, fun _ => []⟩

theorem bounded_of_stuck :
    stuck.attemptCount = 0 ∧ stuck.maxRetries < maxAttempts ∧ stuck.dropPanic = none ∧
      TimePasses ticking (within ⟨some ⟨3⟩, some ⟨2⟩⟩ ticking stuck) ∧
      Bounded ⟨3⟩ stuck ticking (within ⟨some ⟨3⟩, some ⟨2⟩⟩ ticking stuck) := by
  have passes := timePasses_ticking ⟨some ⟨3⟩, some ⟨2⟩⟩ stuck
  have limited : stuck.maxRetries < maxAttempts := by decide
  exact ⟨rfl, limited, rfl, passes, bounded_of_limit rfl rfl limited rfl passes⟩

end KeyedJobs
