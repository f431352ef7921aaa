import KeyedJobs.Proofs.Completion.Passing
import KeyedJobs.Proofs.Retry.LastAttempt

/-! # What is left of a drive

With a last attempt and few writes in each call there is only so much left of a drive, which every
step that it can take makes less. If the writes are left to time alone and no sleep of theirs goes
on for good, then the drive is never stuck: when it cannot go on, there is an instant at which it
wakes.
-/

namespace KeyedJobs

/-- Whether the write makes a completion that needs nobody to send its result. -/
def Write.isPassing : Write → Bool
  | .never | .gate _ | .existing _ => false
  | _ => true

/-- Whether the sleep of the write ends, if it has one. -/
def Write.ends : Write → Bool
  | .task (some sleep) _ => sleep.ends
  | _ => true

/-- The call starts no more writes than that, and nobody has to send their results. -/
structure Call.Paced (width : Nat) (call : Call) : Prop where
  few : call.started.length ≤ width
  passing : ∀ write ∈ call.started, write.isPassing = true

structure Job.Paced (width : Nat) (job : Job) : Prop where
  action : ∀ number, (job.action number).Paced width
  compensator : ∀ compensator, job.compensator = some compensator →
    ∀ failed, (compensator.respond failed).Paced width

/-- The sleeps of all its writes end. -/
structure Job.Timed (job : Job) : Prop where
  action : ∀ number, ∀ write ∈ (job.action number).started, write.ends = true
  compensator : ∀ compensator, job.compensator = some compensator →
    ∀ failed, ∀ write ∈ (compensator.respond failed).started, write.ends = true

variable {job : Job} {policy : RetryPolicy} {now due : Instant} {cs cs' : Completions}
  {made : List JobCall} {width last : Nat}

theorem Job.Paced.private (paced : job.Paced width) : job.Private where
  action number id member := by cases (paced.action number).passing _ member
  compensator compensator present failed id member := by
    cases (paced.compensator compensator present failed).passing _ member

theorem Job.Paced.not_uses (paced : job.Paced width) (gate : String) : ¬ job.Uses gate := by
  rintro (⟨number, member⟩ | ⟨compensator, failed, present, member⟩)
  · cases (paced.action number).passing _ member
  · cases (paced.compensator compensator present failed).passing _ member

namespace Completions

theorem passes_start {write : Write} (passing : write.isPassing = true)
    (ends : write.ends = true) : (cs.start write).2.Passes (cs.start write).1 := by
  cases write with
  | never | gate | existing => cases passing
  | succeeded | failed | dropped => exact ⟨_, Array.getElem?_push_size, rfl⟩
  | task sleep =>
      cases sleep with
      | none => exact ⟨_, Array.getElem?_push_size, rfl⟩
      | some sleep => exact ⟨_, Array.getElem?_push_size, ends⟩

theorem passes_startEach (tidy : cs.Tidy) {writes : List Write}
    (passing : ∀ write ∈ writes, write.isPassing = true)
    (ends : ∀ write ∈ writes, write.ends = true) :
    ∀ id ∈ (cs.startEach writes).1, (cs.startEach writes).2.Passes id := by
  induction writes generalizing cs with
  | nil =>
      intro id member
      cases member
  | cons write rest ih =>
      obtain ⟨here, others⟩ := List.forall_mem_cons.mp passing
      obtain ⟨endsHere, endOthers⟩ := List.forall_mem_cons.mp ends
      have first : Change (fun _ => False) _ cs _ := change_start tidy write
      have later : Change (fun _ => False) _ _ _ := change_startEach first.tidy rest
      have passes : (cs.start write).2.Passes (cs.start write).1 := passes_start here endsHere
      rw [startEach_cons, List.forall_mem_cons]
      refine ⟨?_, ih first.tidy others endOthers⟩
      refine passes.same (later.spares _ passes.inside not_false fun gate started => ?_).entry
      cases others _ started

theorem startEach_induct {P : Completions → Prop}
    (adds : ∀ {cs}, P cs → ∀ completion, P (cs.add completion).2) {writes : List Write}
    (passing : ∀ write ∈ writes, write.isPassing = true) (holds : P cs) :
    P (cs.startEach writes).2 := by
  induction writes generalizing cs with
  | nil => exact holds
  | cons write rest ih =>
      obtain ⟨here, others⟩ := List.forall_mem_cons.mp passing
      rw [startEach_cons]
      apply ih others
      cases write with
      | never | gate | existing => cases here
      | succeeded | failed | dropped | task => exact adds holds _

theorem inspectEach_induct {P : Completions → Prop}
    (polls : ∀ {cs}, cs.Tidy → P cs → ∀ other, P (cs.poll now other).2) (ids : List CompletionId)
    (tidy : cs.Tidy) (holds : P cs) : P (cs.inspectEach now ids).2 := by
  induction ids generalizing cs with
  | nil => exact holds
  | cons id rest ih =>
      have first : Change _ (fun _ => False) cs _ := change_poll tidy now id
      exact ih first.tidy (polls tidy holds id)

theorem length_startEach (cs : Completions) (writes : List Write) :
    (cs.startEach writes).1.length = writes.length := by
  induction writes generalizing cs with
  | nil => rfl
  | cons write rest ih => rw [startEach_cons, List.length_cons, ih, List.length_cons]

theorem induct_of_inspected {P : Completions → Prop}
    (polls : ∀ {cs}, cs.Tidy → P cs → ∀ other, P (cs.poll now other).2) (tidy : cs.Tidy)
    {inspects : Bool} {ids : List CompletionId} {inspections : List Inspection}
    (inspected : (if inspects then cs.inspectEach now ids else ([], cs)) = (inspections, cs'))
    (holds : P cs) : P cs' := by
  cases inspects with
  | false =>
      obtain rfl := congrArg Prod.snd inspected
      exact holds
  | true =>
      obtain rfl := congrArg Prod.snd inspected
      exact inspectEach_induct polls ids tidy holds

end Completions

namespace Drive

variable {d d' : Drive}

/-- What the drive waits for, now or next, is left to time. -/
def Rests (cs : Completions) (d : Drive) : Prop :=
  match d.phase with
  | .launched writes | .revertLaunched writes => ∀ id ∈ writes, cs.Passes id
  | .collecting waiting | .revertCollecting waiting => waiting.Clocked cs
  | _ => True

/-- The drive is of a job that is left to time, and it makes no attempt after the last one. -/
structure Paced (last width : Nat) (job : Job) (d : Drive) : Prop where
  paced : job.Paced width
  ofJob : OfJob job d
  next : d.phase = .ready → d.calls < last

/-- More than the number of steps that the drive can still take, if it makes no attempt after the
last one and no call starts more than `width` writes. -/
def labor (last width : Nat) (d : Drive) : Nat :=
  let attempts := (last - d.calls + 1) * (width + 4)
  match d.phase with
  | .ready => attempts
  | .launched writes => attempts + writes.length + 3
  | .collecting waiting => attempts + openIn waiting.slots + 2
  | .judging _ => attempts + 2
  | .pausing _ => attempts + 1
  | .reverting _ => width + 4
  | .revertLaunched writes => writes.length + 3
  | .revertCollecting waiting => openIn waiting.slots + 2
  | .reverted => 1
  | .ended _ => 0

theorem Rests.begin (job : Job) (cs : Completions) : (Drive.begin job).Rests cs := trivial

theorem Rests.kept (rests : d.Rests cs) (passes : ∀ id, cs.Passes id → cs'.Passes id)
    (clocked : ∀ id, cs.Clocked id → cs'.Clocked id) : d.Rests cs' := by
  unfold Rests at rests ⊢
  cases phase : d.phase with
  | launched writes | revertLaunched writes =>
      rw [phase] at rests
      exact fun id member => passes id (rests id member)
  | collecting waiting | revertCollecting waiting =>
      rw [phase] at rests
      exact rests.kept clocked
  | _ => trivial

theorem Rests.passes_of_collects {waiting : Aggregation} (rests : d.Rests cs)
    (waits : d.collects policy now = some waiting) :
    ∀ slot ∈ waiting.slots, slot.result = none → cs.Passes slot.completion := by
  unfold Rests at rests
  unfold collects at waits
  cases phase : d.phase <;> simp only [phase, reduceCtorEq, Option.some.injEq] at rests waits
  · rw [← waits]
    exact Aggregation.passes_begin rests policy.completionTimeout
  · subst waits
    exact fun slot member undecided => (rests.clocked slot member undecided).passes

theorem Rests.passes_of_revertCollects {waiting : Aggregation} (rests : d.Rests cs)
    (waits : d.revertCollects policy now = some waiting) :
    ∀ slot ∈ waiting.slots, slot.result = none → cs.Passes slot.completion := by
  unfold Rests at rests
  unfold revertCollects at waits
  cases phase : d.phase <;> simp only [phase, reduceCtorEq, Option.some.injEq] at rests waits
  · rw [← waits]
    exact Aggregation.passes_begin rests policy.completionTimeout
  · subst waits
    exact fun slot member undecided => (rests.clocked slot member undecided).passes

theorem store_induct {P : Completions → Prop}
    (polls : ∀ {cs now}, cs.Tidy → P cs → ∀ other, P (cs.poll now other).2)
    (adds : ∀ {cs}, P cs → ∀ completion, P (cs.add completion).2) (paced : job.Paced width)
    (ofJob : OfJob job d) (tidy : cs.Tidy) (step : DriveStep policy now cs d d' cs' made)
    (holds : P cs) : P cs' := by
  cases step with
  | @launch started _ _ phase call begun =>
      obtain ⟨rfl, rfl⟩ := Prod.mk.inj begun
      have passing := (paced.action (d.calls + 1)).passing
      rw [← ofJob.action, call] at passing
      exact Completions.startEach_induct adds passing holds
  | fail phase call stands =>
      obtain ⟨rfl, rfl⟩ := Prod.mk.inj stands
      exact adds holds _
  | @wait waiting _ _ waits polled | @gather waiting _ _ waits polled
  | @revertWait waiting _ _ waits polled | @revertGather waiting _ _ waits polled =>
      obtain ⟨rfl, rfl⟩ := Prod.mk.inj polled
      exact Completions.pollSlots_induct polls waiting.slots tidy holds
  | @revert outcome compensator _ middle started _ _ phase present inspected call begun =>
      obtain ⟨rfl, rfl⟩ := Prod.mk.inj begun
      have same := ofJob.compensator (by rw [phase]; rfl)
      have passing := (paced.compensator compensator (same ▸ present) outcome.failedCompletions).passing
      rw [call] at passing
      have inspected := Completions.induct_of_inspected polls tidy inspected holds
      exact Completions.startEach_induct adds passing inspected
  | revertFail phase present inspected =>
      exact Completions.induct_of_inspected polls tidy inspected holds
  | succeed | retry | compensate | abandon | goOn | skipRevert | close => exact holds

theorem Rests.of_driveStep (rests : d.Rests cs) (paced : job.Paced width) (timed : job.Timed)
    (ofJob : OfJob job d) (tidy : cs.Tidy) (step : DriveStep policy now cs d d' cs' made) :
    d'.Rests cs' := by
  cases step with
  | @launch started _ _ phase call begun =>
      obtain ⟨rfl, rfl⟩ := Prod.mk.inj begun
      have passing := (paced.action (d.calls + 1)).passing
      have ends := timed.action (d.calls + 1)
      rw [← ofJob.action, call] at passing ends
      exact Completions.passes_startEach tidy passing ends
  | @revert outcome compensator _ _ started _ _ phase present inspected call begun =>
      have before : Completions.Change _ (fun _ => False) cs _ := change_of_inspected tidy inspected
      obtain ⟨rfl, rfl⟩ := Prod.mk.inj begun
      have same := ofJob.compensator (by rw [phase]; rfl)
      have passing := (paced.compensator compensator (same ▸ present) outcome.failedCompletions).passing
      have ends := timed.compensator compensator (same ▸ present) outcome.failedCompletions
      rw [call] at passing ends
      exact Completions.passes_startEach before.tidy passing ends
  | wait waits polled incomplete =>
      exact Aggregation.clocked_of_poll tidy (rests.passes_of_collects waits) polled incomplete
  | revertWait waits polled incomplete =>
      exact Aggregation.clocked_of_poll tidy (rests.passes_of_revertCollects waits) polled
        incomplete
  | retry _ _ _ next =>
      simp only [Rests, next]
      cases policy.backoff <;> trivial
  | fail | gather | succeed | compensate | abandon | goOn | skipRevert | revertFail | revertGather
  | close => trivial

theorem Rests.exists_wakeAt? (rests : d.Rests cs) (going : d.resolution? = none)
    (stuck : d.canStep now cs = false) : ∃ due, d.wakeAt? cs = some due := by
  unfold Rests at rests
  unfold canStep at stuck
  unfold resolution? at going
  unfold wakeAt?
  cases phase : d.phase with
  | collecting waiting | revertCollecting waiting =>
      rw [phase] at rests stuck
      exact rests.exists_wakeAt? stuck
  | pausing due => exact ⟨due, rfl⟩
  | _ => simp [phase] at stuck going

theorem Rests.canStep_of_wakeAt? (rests : d.Rests cs) (due_eq : d.wakeAt? cs = some due) :
    d.canStep due cs = true := by
  unfold Rests at rests
  unfold wakeAt? at due_eq
  unfold canStep
  cases phase : d.phase with
  | collecting waiting | revertCollecting waiting =>
      rw [phase] at rests due_eq
      exact rests.isReady_of_wakeAt? due_eq
  | pausing due' =>
      rw [phase] at due_eq
      obtain rfl := Option.some.inj due_eq
      exact decide_eq_true (Nat.le_refl _)
  | _ => simp [phase] at due_eq

theorem Rests.later (rests : d.Rests cs) (stuck : d.canStep now cs = false)
    (due_eq : d.wakeAt? cs = some due) : now < due := by
  unfold Rests at rests
  unfold wakeAt? at due_eq
  unfold canStep at stuck
  cases phase : d.phase with
  | collecting waiting | revertCollecting waiting =>
      rw [phase] at rests due_eq stuck
      exact rests.later stuck due_eq
  | pausing due' =>
      rw [phase] at due_eq stuck
      obtain rfl := Option.some.inj due_eq
      exact Nat.not_le.mp (of_decide_eq_false stuck)
  | _ => simp [phase] at due_eq

theorem labor_of_collects {waiting waiting' : Aggregation} (tidy : cs.Tidy)
    (possible : d.canStep now cs = true) (waits : d.collects policy now = some waiting)
    (polled : waiting.poll now cs = (waiting', cs')) :
    (last - d.calls + 1) * (width + 4) + openIn waiting'.slots + 2 < d.labor last width := by
  unfold canStep at possible
  unfold collects at waits
  unfold labor
  cases phase : d.phase <;> simp only [phase, reduceCtorEq, Option.some.injEq] at possible waits ⊢
  · have fewer := Aggregation.openIn_poll polled
    rw [← waits, openIn_begin] at fewer
    omega
  · have fewer := Aggregation.openIn_poll_lt tidy (waits ▸ polled) possible
    omega

theorem labor_of_revertCollects {waiting waiting' : Aggregation} (tidy : cs.Tidy)
    (possible : d.canStep now cs = true) (waits : d.revertCollects policy now = some waiting)
    (polled : waiting.poll now cs = (waiting', cs')) :
    openIn waiting'.slots + 2 < d.labor last width := by
  unfold canStep at possible
  unfold revertCollects at waits
  unfold labor
  cases phase : d.phase <;> simp only [phase, reduceCtorEq, Option.some.injEq] at possible waits ⊢
  · have fewer := Aggregation.openIn_poll polled
    rw [← waits, openIn_begin] at fewer
    omega
  · have fewer := Aggregation.openIn_poll_lt tidy (waits ▸ polled) possible
    omega

theorem attempts_left {calls : Nat} (before : calls < last) :
    (last - calls + 1) * (width + 4) = (last - (calls + 1) + 1) * (width + 4) + (width + 4) := by
  have one : last - calls + 1 = last - (calls + 1) + 1 + 1 := by omega
  rw [one, Nat.succ_mul]

theorem Paced.labor_of_driveStep (paced : d.Paced last width job) (tidy : cs.Tidy)
    (possible : d.canStep now cs = true) (step : DriveStep policy now cs d d' cs' made) :
    d'.labor last width < d.labor last width := by
  obtain ⟨paced, ofJob, next⟩ := paced
  cases step with
  | @launch started _ _ phase call begun =>
      obtain ⟨rfl, rfl⟩ := Prod.mk.inj begun
      have few := (paced.action (d.calls + 1)).few
      rw [← ofJob.action, call] at few
      simp only [labor, phase, counted, Completions.length_startEach, attempts_left (next phase)]
      change started.length ≤ width at few
      omega
  | fail phase =>
      simp only [labor, phase, counted, attempts_left (next phase)]
      omega
  | wait waits polled => exact labor_of_collects tidy possible waits polled
  | gather waits polled =>
      have less : _ < d.labor last width := labor_of_collects tidy possible waits polled
      simp only [labor] at less ⊢
      omega
  | retry phase _ _ onward =>
      simp only [labor, phase, onward]
      cases policy.backoff with
      | none | some => dsimp only; omega
  | compensate phase =>
      have share := Nat.le_mul_of_pos_left (width + 4) (Nat.zero_lt_succ (last - d.calls))
      rw [Nat.succ_eq_add_one] at share
      simp only [labor, phase]
      omega
  | @revert outcome compensator _ _ started _ _ phase present inspected call begun =>
      obtain ⟨rfl, rfl⟩ := Prod.mk.inj begun
      have same := ofJob.compensator (by rw [phase]; rfl)
      have few := (paced.compensator compensator (same ▸ present) outcome.failedCompletions).few
      rw [call] at few
      simp only [labor, phase, Completions.length_startEach]
      change started.length ≤ width at few
      omega
  | revertWait waits polled => exact labor_of_revertCollects tidy possible waits polled
  | revertGather waits polled =>
      have less : _ < d.labor last width := labor_of_revertCollects tidy possible waits polled
      simp only [labor] at less ⊢
      omega
  | succeed phase | abandon phase | goOn phase | skipRevert phase | revertFail phase
  | close phase =>
      simp only [labor, phase, finish]
      omega

end Drive

end KeyedJobs
