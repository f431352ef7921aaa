import KeyedJobs.Proofs.Retry.Plot

/-! # What a drive does to the store

A job that hands back no completions but its own and whose names no other job uses shares nothing
with the others. A step of its drive polls its own completions and makes new ones; the completions
that other drives know stay as they are, and what the drive itself knows stays true.
-/

namespace KeyedJobs

open Completions (SameAt Change)

namespace Job

/-- The name is used in some call of the job. -/
def Uses (job : Job) (gate : String) : Prop :=
  (∃ number, .gate gate ∈ (job.action number).started) ∨
    ∃ compensator failed, job.compensator = some compensator ∧
      .gate gate ∈ (compensator.respond failed).started

/-- The calls of the job hand back no completions that exist already, but that the compensator may
hand back those that it is given. -/
structure Private (job : Job) : Prop where
  action : ∀ number id, .existing id ∉ (job.action number).started
  compensator : ∀ compensator, job.compensator = some compensator →
    ∀ failed id, .existing id ∈ (compensator.respond failed).started → id ∈ failed

end Job

variable {plan : Plan} {job : Job} {policy : RetryPolicy} {now : Instant} {cs cs' : Completions}
  {made : List JobCall} {touched : CompletionId → Prop} {uses : String → Prop}

theorem change_inspectEach (tidy : cs.Tidy) (now : Instant) (ids : List CompletionId) :
    Change (· ∈ ids) uses cs (cs.inspectEach now ids).2 := by
  induction ids generalizing cs with
  | nil => exact .refl tidy
  | cons id rest ih =>
      have first : Change _ uses cs _ := Completions.change_poll tidy now id
      refine (first.widen ?_).trans ((ih first.tidy).widen ?_)
      · rintro _ rfl
        exact List.mem_cons_self
      · exact fun _ => List.mem_cons_of_mem _

theorem change_of_inspected (tidy : cs.Tidy) {inspects : Bool} {ids : List CompletionId}
    {inspections : List Inspection}
    (inspected : (if inspects then cs.inspectEach now ids else ([], cs)) = (inspections, cs')) :
    Change (· ∈ ids) uses cs cs' := by
  cases inspects with
  | false =>
      obtain rfl := congrArg Prod.snd inspected
      exact .refl tidy
  | true =>
      obtain rfl := congrArg Prod.snd inspected
      exact change_inspectEach tidy now ids

theorem Outcome.Shows.resolve {outcome : Outcome} {failed : List Completion}
    (shows : outcome.Shows cs failed) (kinds : ∀ completion ∈ failed, completion.Failed)
    (gate : String) (result : CompletionResult) :
    outcome.Shows ((cs.resolve? gate result).getD cs) failed := by
  obtain ⟨entries, distinct⟩ := shows
  refine ⟨?_, distinct⟩
  generalize outcome.failures = failures at entries
  induction entries with
  | nil => exact .nil
  | cons entry _ ih =>
      obtain ⟨kind, kinds⟩ := List.forall_mem_cons.mp kinds
      refine .cons (Completions.entry_resolve_of_ne entry ?_ result) (ih kinds)
      cases kind <;> simp

namespace Drive

variable {d d' : Drive}

/-- The completions that the drive knows. -/
def mentions (d : Drive) : List CompletionId :=
  match d.phase with
  | .launched writes | .revertLaunched writes => writes
  | .collecting waiting | .revertCollecting waiting => waiting.slots.map (·.completion)
  | .judging outcome | .reverting outcome => outcome.failedCompletions
  | .ready | .pausing _ | .reverted | .ended _ => []

theorem completions_begin (now : Instant) (limit : Option Duration) (ids : List CompletionId) :
    (Aggregation.begin now limit ids).slots.map (·.completion) = ids := by
  simp [Aggregation.begin, Function.comp_def]

theorem Fits.same (fits : d.Fits plan cs) (same : ∀ id ∈ d.mentions, SameAt cs cs' id) :
    d.Fits plan cs' := by
  unfold Fits at fits ⊢
  unfold mentions at same
  cases phase : d.phase with
  | launched writes =>
      rw [phase] at fits same
      exact ⟨fits.1, fits.2.same (by rwa [completions_begin])⟩
  | collecting waiting =>
      rw [phase] at fits same
      exact ⟨fits.1, fits.2.same same⟩
  | judging outcome | reverting outcome =>
      rw [phase] at fits same
      exact fits.same same
  | _ => trivial

theorem Fits.resolve (fits : d.Fits plan cs) (tidy : cs.Tidy) (gate : String) :
    d.Fits plan ((cs.resolve? gate (plan gate)).getD cs) := by
  unfold Fits at fits ⊢
  cases phase : d.phase with
  | launched writes | collecting waiting =>
      rw [phase] at fits
      exact ⟨fits.1, fits.2.resolve tidy gate⟩
  | judging outcome | reverting outcome =>
      rw [phase] at fits
      exact fits.resolve (Call.failed_failed plan _) gate _
  | _ => trivial

theorem mentions_of_collects {waiting : Aggregation} (waits : d.collects policy now = some waiting) :
    d.mentions = waiting.slots.map (·.completion) := by
  unfold collects at waits
  unfold mentions
  cases phase : d.phase <;> simp only [phase, reduceCtorEq] at waits ⊢
  · rw [← Option.some.inj waits, completions_begin]
  · rw [Option.some.inj waits]

theorem mentions_of_revertCollects {waiting : Aggregation}
    (waits : d.revertCollects policy now = some waiting) :
    d.mentions = waiting.slots.map (·.completion) := by
  unfold revertCollects at waits
  unfold mentions
  cases phase : d.phase <;> simp only [phase, reduceCtorEq] at waits ⊢
  · rw [← Option.some.inj waits, completions_begin]
  · rw [Option.some.inj waits]

/-- What a step of the drive does to the store, and which completions the drive knows afterwards. -/
structure Effect (job : Job) (d d' : Drive) (cs cs' : Completions) : Prop where
  change : Change (· ∈ d.mentions) job.Uses cs cs'
  mentions : ∀ id ∈ d'.mentions,
    id ∈ d.mentions ∨ cs.entries.size ≤ id ∧ id < cs'.entries.size

theorem Effect.still (tidy : cs.Tidy) (fewer : ∀ id ∈ d'.mentions, id ∈ d.mentions) :
    Effect job d d' cs cs :=
  ⟨.refl tidy, fun id member => .inl (fewer id member)⟩

theorem Effect.poll (tidy : cs.Tidy) {waiting waiting' : Aggregation}
    (known : d.mentions = waiting.slots.map (·.completion))
    (polled : waiting.poll now cs = (waiting', cs'))
    (fewer : ∀ id ∈ d'.mentions, id ∈ waiting'.slots.map (·.completion)) :
    Effect job d d' cs cs' := by
  obtain ⟨rfl, rfl⟩ := Prod.mk.inj polled
  simp only [Aggregation.completions_pollSlots] at fewer
  refine ⟨?_, fun id member => .inl (known ▸ fewer id member)⟩
  rw [known]
  exact Aggregation.change_pollSlots tidy now waiting.limit waiting.slots

theorem Effect.start (tidy : cs.Tidy) {started : List Write} {writes : List CompletionId}
    (begun : cs.startEach started = (writes, cs'))
    (used : ∀ gate, .gate gate ∈ started → job.Uses gate)
    (held : ∀ id, .existing id ∈ started → id ∈ d.mentions)
    (fewer : ∀ id ∈ d'.mentions, id ∈ writes) : Effect job d d' cs cs' := by
  obtain ⟨rfl, rfl⟩ := Prod.mk.inj begun
  refine ⟨(Completions.change_startEach tidy started).allow used, ?_⟩
  intro id member
  exact (Completions.mem_startEach tidy (fewer id member)).imp_left (held id)

theorem effect_of_driveStep (own : job.Private) (ofJob : OfJob job d) (tidy : cs.Tidy)
    (step : DriveStep policy now cs d d' cs' made) : Effect job d d' cs cs' := by
  cases step with
  | @launch started _ _ phase call begun =>
      rw [ofJob.action] at call
      have same : (job.action (d.calls + 1)).started = started := by rw [call]; rfl
      refine .start tidy begun (fun gate member => .inl ⟨_, same ▸ member⟩) ?_ fun _ member => member
      exact fun id member => absurd (same ▸ member) (own.action _ id)
  | fail phase call stands =>
      obtain ⟨rfl, rfl⟩ := Prod.mk.inj stands
      refine ⟨Completions.change_add tidy (by simp), ?_⟩
      intro id member
      obtain rfl := List.mem_singleton.mp member
      exact .inr ⟨Nat.le_refl _, by simp⟩
  | wait waits polled => exact .poll tidy (mentions_of_collects waits) polled fun _ member => member
  | gather waits polled =>
      refine .poll tidy (mentions_of_collects waits) polled fun id member => ?_
      exact (Aggregation.sublist_failures _).subset member
  | compensate phase => exact .still tidy (by simp [mentions, phase])
  | succeed | abandon | goOn | skipRevert | close =>
      exact .still tidy fun id member => by cases member
  | retry _ _ _ next =>
      refine .still tidy fun id member => ?_
      rw [mentions, next] at member
      cases backoff : policy.backoff <;> simp [backoff] at member
  | @revert outcome compensator _ middle started _ _ phase present inspected call begun =>
      have known : d.mentions = outcome.failedCompletions := by simp [mentions, phase]
      have same := ofJob.compensator (by rw [phase]; rfl)
      rw [present] at same
      have first : Change _ job.Uses cs _ := change_of_inspected tidy inspected
      have began : (compensator.respond outcome.failedCompletions).started = started := by
        rw [call]
        rfl
      obtain ⟨rfl, rfl⟩ := Prod.mk.inj begun
      have used : ∀ gate, .gate gate ∈ started → job.Uses gate := fun gate member =>
        .inr ⟨compensator, _, same.symm, began ▸ member⟩
      refine ⟨known ▸ first.trans ((Completions.change_startEach first.tidy started).allow used), ?_⟩
      intro id member
      rcases Completions.mem_startEach first.tidy member with held | ⟨new, inside⟩
      · exact .inl (known ▸ own.compensator _ same.symm _ id (began ▸ held))
      · exact .inr ⟨Nat.le_trans first.grows new, inside⟩
  | @revertFail outcome _ _ _ _ phase present inspected =>
      have known : d.mentions = outcome.failedCompletions := by simp [mentions, phase]
      refine ⟨known ▸ change_of_inspected tidy inspected, ?_⟩
      intro id member
      cases member
  | revertWait waits polled =>
      exact .poll tidy (mentions_of_revertCollects waits) polled fun _ member => member
  | revertGather waits polled =>
      exact .poll tidy (mentions_of_revertCollects waits) polled fun _ member => by cases member

theorem Fits.gathers {waiting : Aggregation} (fits : d.Fits plan cs)
    (untimed : policy.completionTimeout = none) (waits : d.collects policy now = some waiting) :
    (d.job.action d.calls).error? = none ∧
      waiting.Gathers plan cs (promises plan (d.job.action d.calls).started) := by
  unfold Fits at fits
  unfold collects at waits
  cases phase : d.phase with
  | launched writes =>
      rw [phase] at fits waits
      rw [← Option.some.inj waits, untimed]
      exact fits
  | collecting other =>
      rw [phase] at fits waits
      rw [← Option.some.inj waits]
      exact fits
  | _ =>
      rw [phase] at waits
      cases waits

theorem Fits.of_driveStep (own : job.Private) (ofJob : OfJob job d)
    (untimed : policy.completionTimeout = none) (tidy : cs.Tidy) (fits : d.Fits plan cs)
    (step : DriveStep policy now cs d d' cs' made) : d'.Fits plan cs' := by
  cases step with
  | @launch started _ _ phase call begun =>
      obtain ⟨rfl, rfl⟩ := Prod.mk.inj begun
      have made : ∀ id, .existing id ∉ started := by
        intro id member
        apply own.action (d.calls + 1) id
        rw [← ofJob.action, call]
        exact member
      obtain ⟨yields, distinct⟩ := Completions.startEach_yields tidy made
      simp only [Fits, counted, call]
      exact ⟨rfl, .begin yields distinct⟩
  | fail phase call stands =>
      obtain ⟨rfl, rfl⟩ := Prod.mk.inj stands
      simp only [Fits, counted, Call.failed, call]
      exact ⟨.cons (by simp) .nil, List.nodup_singleton _⟩
  | wait waits polled =>
      obtain ⟨rfl, rfl⟩ := Prod.mk.inj polled
      obtain ⟨begun, gathers⟩ := fits.gathers untimed waits
      exact ⟨begun, gathers.poll tidy now⟩
  | gather waits polled complete =>
      obtain ⟨rfl, rfl⟩ := Prod.mk.inj polled
      obtain ⟨begun, gathers⟩ := fits.gathers untimed waits
      simp only [Fits, Call.failed, begun]
      exact (gathers.poll tidy now).shows complete
  | compensate phase =>
      unfold Fits at fits ⊢
      rw [phase] at fits
      exact fits
  | retry _ _ _ next =>
      simp only [Fits, next]
      cases policy.backoff <;> trivial
  | succeed | abandon | goOn | skipRevert | revert | revertFail | revertWait | revertGather | close =>
      trivial

/-- The drive of the job knows what it ought to know, of completions that only the job's own names
can resolve. -/
structure Owns (plan : Plan) (job : Job) (d : Drive) (cs : Completions) : Prop where
  fits : d.Fits plan cs
  inside : ∀ id ∈ d.mentions, id < cs.entries.size
  named : ∀ id ∈ d.mentions, ∀ gate, (gate, id) ∈ cs.senders → job.Uses gate

theorem Owns.begin (job : Job) (cs : Completions) : Owns plan job (Drive.begin job) cs :=
  ⟨trivial, by simp [mentions, Drive.begin], by simp [mentions, Drive.begin]⟩

theorem Owns.of_driveStep (owns : Owns plan job d cs) (own : job.Private) (ofJob : OfJob job d)
    (untimed : policy.completionTimeout = none) (tidy : cs.Tidy)
    (step : DriveStep policy now cs d d' cs' made) : Owns plan job d' cs' := by
  obtain ⟨change, mentions⟩ := effect_of_driveStep own ofJob tidy step
  refine ⟨owns.fits.of_driveStep own ofJob untimed tidy step, ?_, ?_⟩
  · intro id member
    rcases mentions id member with known | new
    · exact Nat.lt_of_lt_of_le (owns.inside id known) change.grows
    · exact new.2
  · intro id member gate sender
    rcases change.senders gate id sender with earlier | ⟨used, -⟩
    · have old := tidy.made _ earlier
      refine owns.named id ((mentions id member).resolve_right fun new => ?_) gate earlier
      exact absurd old (Nat.not_lt.mpr new.1)
    · exact used

theorem Owns.sameAt {other : Job} (owns : Owns plan job d cs)
    (change : Change touched other.Uses cs cs') (apart : ∀ id ∈ d.mentions, ¬ touched id)
    (secret : ∀ gate, job.Uses gate → ¬ other.Uses gate) : ∀ id ∈ d.mentions, SameAt cs cs' id :=
  fun id member => change.spares id (owns.inside id member) (apart id member) fun gate used sender =>
    secret gate (owns.named id member gate sender) used

theorem Owns.same (owns : Owns plan job d cs) (same : ∀ id ∈ d.mentions, SameAt cs cs' id)
    (grows : cs.entries.size ≤ cs'.entries.size) : Owns plan job d cs' := by
  refine ⟨owns.fits.same same, ?_, ?_⟩
  · intro id member
    exact Nat.lt_of_lt_of_le (owns.inside id member) grows
  · intro id member gate sender
    exact owns.named id member gate (((same id member).senders gate).mp sender)

theorem Owns.resolve (owns : Owns plan job d cs) (tidy : cs.Tidy) (gate : String) :
    Owns plan job d ((cs.resolve? gate (plan gate)).getD cs) := by
  have change : Change (fun _ => False) _ cs _ := Completions.change_resolve tidy gate (plan gate)
  refine ⟨owns.fits.resolve tidy gate, ?_, ?_⟩
  · intro id member
    exact Nat.lt_of_lt_of_le (owns.inside id member) change.grows
  · intro id member name sender
    rcases change.senders name id sender with earlier | ⟨-, new⟩
    · exact owns.named id member name earlier
    · exact absurd (owns.inside id member) (Nat.not_lt.mpr new)

end Drive

end KeyedJobs
