import KeyedJobs.Proofs.Coordinator.ClosingDown
import KeyedJobs.Proofs.Load.Report

/-! # Running a load

A thread brings the jobs of a load one after the other, waits until no job is left and reads the
counters, while the workers go on and time passes. However the threads take turns, they take only so
many, if it is known that each job has a last attempt.
-/

namespace KeyedJobs

open Coordinator (CallStep)

variable {s t : Coordinator} {q q' : KeyQueue Ticket} {old new : Stage}

/-- The call is on its way to admit its job, or has admitted it. -/
inductive Stage.Enrolling : Stage → Prop where
  | checking {ticket : Ticket} (named : ticket.job.key ≠ "") : Enrolling (.checking ticket)
  | pushing (ticket : Ticket) : Enrolling (.pushing ticket)
  | admitting (key : String) : Enrolling (.admitting key)
  | waking (key : String) : Enrolling (.waking key)
  | admitted : Enrolling (.answered .admitted)

theorem Stage.Enrolling.of_callStep (enrolling : old.Enrolling) (step : CallStep s q old new t q')
    (unclosed : q.closed = false) (opened : s.channel.closed = false) : new.Enrolling := by
  cases step with
  | refuseKey empty =>
      cases enrolling with
      | checking named => exact absurd empty named
  | raise => exact .pushing _
  | push => exact .admitting _
  | refuse closed =>
      rw [unclosed] at closed
      cases closed
  | countAdmitted key => exact .waking key
  | wake => exact .admitted
  | wakeNobody _ _ closed =>
      rw [opened] at closed
      cases closed
  | _ => cases enrolling

/-- The call waits for the gauge without a deadline, or it has found the gauge at zero, where it
still is. -/
inductive Stage.Idling (monitor : Monitor) : Stage → Prop where
  | waits : Idling monitor (.idling none)
  | idle (zero : monitor.incomplete = 0) : Idling monitor (.answered (.idle true))

theorem Stage.Idling.of_callStep (idling : old.Idling s.monitor)
    (possible : s.canStepCall old = true) (step : CallStep s q old new t q') :
    new.Idling t.monitor := by
  cases idling with
  | idle => cases possible
  | waits =>
      have zero : s.monitor.isIdle = true := by simpa [Coordinator.canStepCall] using possible
      cases step
      rw [zero]
      exact .idle (of_decide_eq_true zero)

/-- How many jobs the answer counts as not admitted. -/
def Answer.rejections : Answer → Nat
  | .rejected _ => 1
  | _ => 0

namespace Load

open Coordinator (Move Ongoing Sound Sealed Transition alone_of_callStep incomplete_of_transition)

/-- Where the thread stands that runs a load, with the number of jobs that were not admitted. -/
inductive Stance where
  /-- About to bring the next job, or to wait if there is none. -/
  | bringing (next rejected : Nat)
  /-- In the call that brings a job. -/
  | enqueueing (seq rejected : Nat)
  /-- In the call that waits until no job is left. -/
  | waiting (rejected : Nat)
  | returned (report : Report)

/-- A turn of some thread: of the one that runs the load, or a step of a worker or of a call. -/
inductive Turn (p : Profile) : Stance → Coordinator → Stance → Coordinator → Prop where
  | bring {next rejected s} (left : next < p.jobs) :
      Turn p (.bringing next rejected) s (.enqueueing next rejected)
        (s.move (.begin (.enqueue (p.job next))))
  | proceed {seq rejected s answer} (answered : s.answer? 0 = some answer) :
      Turn p (.enqueueing seq rejected) s (.bringing (seq + 1) (rejected + answer.rejections))
        (s.move (.leave 0))
  | wait {rejected s} :
      Turn p (.bringing p.jobs rejected) s (.waiting rejected)
        (s.move (.begin (.waitUntilIdle none)))
  | finish {rejected s answer monitor} (answered : s.answer? 0 = some answer)
      (counters : (s.move (.leave 0)).snapshot = .ok monitor) :
      Turn p (.waiting rejected) s (.returned ⟨monitor, rejected,
          (OrderLedger.empty.recordEach (Run.starts (s.move (.leave 0)) 0)).violations⟩)
        (s.move (.leave 0))
  | step {stance s} (m : Move) (possible : s.canMove m = true) (steps : m.isStep = true) :
      Turn p stance s stance (s.move m)

/-- The load is being run on a fresh coordinator, and the threads have taken so many turns. -/
inductive Running (p : Profile) (config : Config) : Nat → Stance → Coordinator → Prop where
  | start {s : Coordinator} (started : Coordinator.start config = .ok s) :
      Running p config 0 (.bringing 0 0) s
  | turn {turns stance s stance' t} (running : Running p config turns stance s)
      (turn : Turn p stance s stance' t) : Running p config (turns + 1) stance' t
  | pass {turns stance s} (instant : Instant) (running : Running p config turns stance s)
      (later : s.now ≤ instant) : Running p config turns stance (s.move (.elapse instant))

variable {p : Profile} {config : Config} {m : Move} {count count' turns : Nat}
  {stance stance' : Stance}

theorem Running.steps (running : Running p config turns stance s) (moves : List Move)
    (possible : s.canFollow moves = true) (steps : moves.all Move.isStep = true) :
    Running p config (turns + moves.length) stance (s.follow moves) := by
  induction moves generalizing turns s with
  | nil => exact running
  | cons m rest ih =>
      simp only [Coordinator.canFollow, Bool.and_eq_true] at possible
      simp only [List.all_cons, Bool.and_eq_true] at steps
      have stepped := running.turn (.step m possible.1 steps.1)
      rw [List.length_cons, Nat.add_comm rest.length, ← Nat.add_assoc]
      exact ih stepped possible.2 steps.2

namespace Profile

/-- What one unit of effort counts for. -/
def share (p : Profile) : Nat := (p.maxRetries + 1 + 1) * (p.width + 4) + 1

/-- The threads take no more turns than that. -/
def mostTurns (p : Profile) (config : Config) : Nat :=
  p.share * (19 * p.jobs + 3 + config.workers.toNat)

theorem mem_jobsUpTo {job : Job} (member : job ∈ p.jobsUpTo count) :
    ∃ seq < count, p.job seq = job := by
  simpa [jobsUpTo] using member

theorem paced_jobsUpTo (p : Profile) (count : Nat) :
    ∀ job ∈ p.jobsUpTo count, job.Paced p.width := by
  intro job member
  obtain ⟨seq, -, rfl⟩ := mem_jobsUpTo member
  exact p.paced_job seq

theorem timed_jobsUpTo (ends : p.writeLatency.ends = true) (count : Nat) :
    ∀ job ∈ p.jobsUpTo count, job.Timed := by
  intro job member
  obtain ⟨seq, -, rfl⟩ := mem_jobsUpTo member
  exact timed_job ends seq

theorem fresh_jobsUpTo (p : Profile) (count : Nat) :
    ∀ job ∈ p.jobsUpTo count, job.attemptCount = 0 := by
  intro job member
  obtain ⟨seq, -, rfl⟩ := mem_jobsUpTo member
  exact p.attemptCount_job seq

end Profile

/-- What stays as it is while a load is run and so many jobs have been brought. -/
structure Steady (p : Profile) (count : Nat) (s : Coordinator) (q : KeyQueue Ticket) : Prop where
  ongoing : Ongoing (p.jobsUpTo count) s q
  within : count ≤ p.jobs
  owned : s.abandoned = false
  staying : s.shutDown = false
  staffed : 0 < s.workers.length

theorem Steady.of_fresh (p : Profile) (started : Coordinator.start config = .ok s) :
    Steady p 0 s .empty := by
  have staffed := Coordinator.Arises.staffed ⟨s, started, .refl s⟩
  obtain rfl := Coordinator.start_eq_ok started
  exact ⟨.of_fresh config, Nat.zero_le _, rfl, rfl, staffed⟩

theorem Steady.unclosed (steady : Steady p count s q) : q.closed = false := by
  cases closed : q.closed with
  | false => rfl
  | true =>
      have marked := steady.ongoing.enrolled.closed closed
      rw [steady.staying] at marked
      cases marked

theorem Steady.not_spent (steady : Steady p count s q) :
    ¬ (s.channel.closed = true ∨ .hangingUp ∈ s.calls) := by
  intro late
  have marked := (steady.ongoing.enrolled.spent late).shut
  rw [steady.staying] at marked
  cases marked

theorem Steady.opened (steady : Steady p count s q) : s.channel.closed = false :=
  Bool.eq_false_iff.mpr fun closed => steady.not_spent (.inl closed)

theorem Steady.shut (steady : Steady p count s q) : Sealed s q where
  hanging hanging := absurd (.inr hanging) steady.not_spent
  closed closed := absurd (.inl closed) steady.not_spent

theorem shutDown_of_unmarked (staying : s.shutDown = false)
    (unmarked : ∀ stage ∈ s.calls, stage.marks = false) (move : Transition s q m t q') :
    t.shutDown = false := by
  cases move with
  | worker _ step => exact (Coordinator.shutDown_of_workerStep step ▸ staying : _)
  | call found step =>
      cases step with
      | mark => cases unmarked _ (List.mem_of_getElem? found)
      | _ => exact staying
  | _ => exact staying

theorem abandoned_of_inLine (owned : s.abandoned = false) (inLine : s.isInLine m = true)
    (move : Transition s q m t q') : t.abandoned = false := by
  cases move with
  | worker _ step => exact ((Coordinator.abandoned_of_workerStep step).trans owned : _)
  | call _ step => exact ((Coordinator.abandoned_of_callStep step).trans owned : _)
  | abandon => cases inLine
  | _ => exact owned

theorem Steady.move (steady : Steady p count s q) (inLine : s.isInLine m = true)
    (unmarked : ∀ stage ∈ s.calls, stage.marks = false)
    (brings : p.jobsUpTo count ++ m.jobs = p.jobsUpTo count') (within : count' ≤ p.jobs)
    (move : Transition s q m t q') : Steady p count' t q' := by
  obtain ⟨ongoing, inside, owned, staying, staffed⟩ := steady
  refine ⟨?_, within, abandoned_of_inLine owned inLine move,
    shutDown_of_unmarked staying unmarked move, ?_⟩
  · exact brings ▸ ongoing.of_transition (p.paced_jobsUpTo count) inLine move
  · rw [Coordinator.length_workers_of_transition move]
    exact staffed

/-- What may be known of the runs of a load beyond what holds in all of them. It has to tell how many
attempts each job makes at most, and may tell what the report says. -/
structure Regime (p : Profile) (config : Config) where
  /-- What is known when so many jobs have been brought. -/
  Knows : Nat → Coordinator → KeyQueue Ticket → Prop
  last : Nat → Nat
  Reports : Report → Prop
  few : ∀ n, last n ≤ p.maxRetries + 1
  fresh : Knows 0 (Coordinator.fresh config) .empty
  /-- Nobody sends results to the jobs of a load. -/
  move {count count' : Nat} {s t : Coordinator} {q q' : KeyQueue Ticket} {m : Move} :
    Steady p count s q → Knows count s q → s.isInLine m = true →
      (∀ plan, m.isPlanned plan = true) → p.jobsUpTo count ++ m.jobs = p.jobsUpTo count' →
      Transition s q m t q' → Knows count' t q'
  endsBy {count : Nat} {s : Coordinator} {q : KeyQueue Ticket} :
    Steady p count s q → Knows count s q → s.EndsBy last
  reports {s : Coordinator} {q : KeyQueue Ticket} {monitor : Snapshot} :
    Steady p p.jobs s q → Knows p.jobs s q → s.Complete → s.snapshot = .ok monitor →
      Reports (reportOf 0 s monitor)

variable {regime : Regime p config}

namespace Stance

/-- How many jobs have been brought. -/
def brought (p : Profile) : Stance → Nat
  | .bringing next _ => next
  | .enqueueing seq _ => seq + 1
  | .waiting _ | .returned _ => p.jobs

/-- More than the effort that is still to come and the turns of the thread itself. -/
def ahead (p : Profile) : Stance → Nat
  | .bringing next _ => 19 * (p.jobs - next) + 3
  | .enqueueing seq _ => 19 * (p.jobs - (seq + 1)) + 4
  | .waiting _ => 1
  | .returned _ => 0

/-- The call that the thread is in, and what it has seen so far. -/
def Calls (Reports : Report → Prop) (s : Coordinator) : Stance → Prop
  | .bringing _ rejected => s.calls = [] ∧ rejected = 0
  | .enqueueing _ rejected => (∃ stage, s.calls = [stage] ∧ stage.Enrolling) ∧ rejected = 0
  | .waiting rejected => (∃ stage, s.calls = [stage] ∧ stage.Idling s.monitor) ∧ rejected = 0
  | .returned report => (s.calls = [] ∧ s.monitor.incomplete = 0) ∧ Reports report

variable {Reports : Report → Prop}

theorem Calls.unmarked (calls : stance.Calls Reports s) : ∀ stage ∈ s.calls, stage.marks = false := by
  intro stage member
  cases stance with
  | bringing =>
      rw [calls.1] at member
      cases member
  | returned =>
      rw [calls.1.1] at member
      cases member
  | enqueueing =>
      obtain ⟨⟨_, only, enrolling⟩, -⟩ := calls
      rw [only] at member
      obtain rfl := List.mem_singleton.mp member
      cases enrolling <;> rfl
  | waiting =>
      obtain ⟨⟨_, only, idling⟩, -⟩ := calls
      rw [only] at member
      obtain rfl := List.mem_singleton.mp member
      cases idling <;> rfl

theorem Calls.of_step (calls : stance.Calls Reports s) (before : Sound s q) (after : Sound t q')
    (unclosed : q.closed = false) (opened : s.channel.closed = false)
    (possible : s.canMove m = true) (steps : m.isStep = true) (move : Transition s q m t q') :
    stance.Calls Reports t := by
  cases move with
  | @worker i old new t q' found step =>
      have same : (t.setWorker i new).calls = s.calls := (Coordinator.calls_of_workerStep step : _)
      cases stance with
      | bringing => exact ⟨same.trans calls.1, calls.2⟩
      | returned =>
          obtain ⟨⟨none_called, zero⟩, reports⟩ := calls
          have unoffered : s.offered = [] := by rw [Coordinator.offered, none_called]; rfl
          have offers : (t.setWorker i new).offered = [] := by
            rw [Coordinator.offered, same, none_called]
            rfl
          exact ⟨⟨same.trans none_called, incomplete_of_transition before after zero unoffered offers
            (.worker found step)⟩, reports⟩
      | enqueueing =>
          obtain ⟨⟨stage, only, enrolling⟩, none_rejected⟩ := calls
          exact ⟨⟨stage, same.trans only, enrolling⟩, none_rejected⟩
      | waiting =>
          obtain ⟨⟨stage, only, idling⟩, none_rejected⟩ := calls
          refine ⟨⟨stage, same.trans only, ?_⟩, none_rejected⟩
          cases idling with
          | waits => exact .waits
          | idle zero =>
              apply Stage.Idling.idle
              refine incomplete_of_transition before after zero ?_ ?_ (.worker found step)
              · rw [Coordinator.offered, only]
                rfl
              · rw [Coordinator.offered, same, only]
                rfl
  | @call i old new t q' found step =>
      rw [Coordinator.canMove, found, Option.any_some] at possible
      cases stance with
      | bringing =>
          rw [calls.1] at found
          cases found
      | returned =>
          rw [calls.1.1] at found
          cases found
      | enqueueing =>
          obtain ⟨⟨stage, only, enrolling⟩, none_rejected⟩ := calls
          obtain ⟨rfl, now⟩ := alone_of_callStep only found step
          exact ⟨⟨new, now, enrolling.of_callStep step unclosed opened⟩, none_rejected⟩
      | waiting =>
          obtain ⟨⟨stage, only, idling⟩, none_rejected⟩ := calls
          obtain ⟨rfl, now⟩ := alone_of_callStep only found step
          have kept := idling.of_callStep possible step
          exact ⟨⟨new, now, kept⟩, none_rejected⟩
  | _ => cases steps

/-- What is certain at each stance, and how many turns are still to be taken. -/
structure Holds (regime : Regime p config) (turns : Nat) (stance : Stance) (s : Coordinator)
    (q : KeyQueue Ticket) : Prop where
  steady : Steady p (stance.brought p) s q
  knows : regime.Knows (stance.brought p) s q
  calls : stance.Calls regime.Reports s
  left : turns + p.share * stance.ahead p + s.toil regime.last p.width (p.maxRetries + 1) q ≤
    p.mostTurns config

end Stance

open Stance (Holds)

theorem Profile.share_pos (p : Profile) : 0 < p.share := Nat.succ_pos _

namespace Stance.Holds

variable {next seq rejected : Nat} {answer : Answer}

theorem start (regime : Regime p config) (started : Coordinator.start config = .ok s) :
    Holds regime 0 (.bringing 0 0) s .empty where
  steady := .of_fresh p started
  knows := by
    obtain rfl := Coordinator.start_eq_ok started
    exact regime.fresh
  calls := by
    obtain rfl := Coordinator.start_eq_ok started
    exact ⟨rfl, rfl⟩
  left := by
    obtain rfl := Coordinator.start_eq_ok started
    have fresh : (Coordinator.fresh config).toil regime.last p.width (p.maxRetries + 1) .empty =
        p.share * config.workers.toNat := Coordinator.toil_of_fresh config
    rw [fresh, Nat.zero_add, ← Nat.mul_add]
    exact Nat.le_refl _

theorem move (holds : Holds regime turns stance s q) (possible : s.canMove m = true)
    (inLine : s.isInLine m = true) (planned : ∀ plan, m.isPlanned plan = true)
    (brings : p.jobsUpTo (stance.brought p) ++ m.jobs = p.jobsUpTo count') (within : count' ≤ p.jobs) :
    ∃ q', Transition s q m (s.move m) q' ∧ Steady p count' (s.move m) q' ∧
      regime.Knows count' (s.move m) q' := by
  obtain ⟨steady, knows, calls, -⟩ := holds
  obtain ⟨q', move⟩ := steady.ongoing.sound.custody.transition possible
  exact ⟨q', move, steady.move inLine calls.unmarked brings within move,
    regime.move steady knows inLine planned brings move⟩

theorem bring (holds : Holds regime turns (.bringing next rejected) s q) (left : next < p.jobs) :
    ∃ q', Holds regime (turns + 1) (.enqueueing next rejected)
      (s.move (.begin (.enqueue (p.job next)))) q' := by
  have ⟨steady, _, ⟨none_called, none_rejected⟩, spent⟩ := holds
  have possible : s.canMove (.begin (.enqueue (p.job next))) = true := by
    simp [Coordinator.canMove, steady.owned]
  have inLine : s.isInLine (.begin (.enqueue (p.job next))) = true := by
    simp [Coordinator.isInLine, Coordinator.isQuiet, Coordinator.isLeaving, none_called,
      steady.staying]
  obtain ⟨q', move, after, knows⟩ := holds.move possible inLine (fun _ => rfl)
    (p.jobsUpTo_succ next).symm left
  refine ⟨q', after, knows, ⟨⟨.checking ⟨s.brought, p.job next⟩, ?_, .checking ?_⟩,
    none_rejected⟩, ?_⟩
  · simp [Coordinator.move, none_called, Coordinator.firstStage]
  · rw [p.key_job]
    exact p.keyOf_ne_empty next
  · have split : ahead p (.bringing next rejected) = ahead p (.enqueueing next rejected) + 18 := by
      simp only [ahead]
      omega
    have positive := p.share_pos
    rw [Coordinator.toil_of_enter move]
    rw [split, Nat.mul_add] at spent
    change _ + (_ + p.share * 17) ≤ _
    omega

theorem proceed (holds : Holds regime turns (.enqueueing seq rejected) s q)
    (answered : s.answer? 0 = some answer) :
    ∃ q', Holds regime (turns + 1) (.bringing (seq + 1) (rejected + answer.rejections))
      (s.move (.leave 0)) q' := by
  have ⟨steady, _, ⟨⟨stage, only, enrolling⟩, none_rejected⟩, spent⟩ := holds
  cases enrolling with
  | admitted =>
      obtain rfl : .admitted = answer := by simpa [Coordinator.answer?, only] using answered
      have possible : s.canMove (.leave 0) = true := by simp [Coordinator.canMove, only]
      obtain ⟨q', move, after, knows⟩ := holds.move possible rfl (fun _ => rfl)
        (List.append_nil _) steady.within
      refine ⟨q', after, knows, ⟨by simp [Coordinator.move, only], none_rejected⟩, ?_⟩
      have split : ahead p (.enqueueing seq rejected) = ahead p (.bringing (seq + 1) 0) + 1 := rfl
      have positive := p.share_pos
      rw [Coordinator.toil_of_leave move]
      rw [split, Nat.mul_add] at spent
      change _ + p.share * ahead p (.bringing (seq + 1) 0) + _ ≤ _
      omega
  | _ => simp [Coordinator.answer?, only] at answered

theorem wait (holds : Holds regime turns (.bringing p.jobs rejected) s q) :
    ∃ q', Holds regime (turns + 1) (.waiting rejected) (s.move (.begin (.waitUntilIdle none))) q' := by
  have ⟨steady, _, ⟨none_called, none_rejected⟩, spent⟩ := holds
  have possible : s.canMove (.begin (.waitUntilIdle none)) = true := by
    simp [Coordinator.canMove, steady.owned]
  obtain ⟨q', move, after, knows⟩ := holds.move possible rfl (fun _ => rfl)
    (List.append_nil _) steady.within
  refine ⟨q', after, knows, ⟨⟨.idling none, ?_, .waits⟩, none_rejected⟩, ?_⟩
  · simp [Coordinator.move, none_called, Coordinator.firstStage, idleDeadline]
  · have split : ahead p (.bringing p.jobs rejected) = 3 := by simp [ahead]
    have positive := p.share_pos
    rw [Coordinator.toil_of_enter move]
    rw [split] at spent
    change _ + p.share * 1 + (_ + p.share * 1) ≤ _
    omega

theorem complete_of_calls (only : s.calls = []) (zero : s.monitor.incomplete = 0) : s.Complete := by
  refine ⟨zero, fun stage member => ?_⟩
  rw [only] at member
  cases member

theorem finish (holds : Holds regime turns (.waiting rejected) s q)
    (answered : s.answer? 0 = some answer) {monitor : Snapshot}
    (counters : (s.move (.leave 0)).snapshot = .ok monitor) :
    ∃ q', Holds regime (turns + 1) (.returned (reportOf rejected (s.move (.leave 0)) monitor))
      (s.move (.leave 0)) q' := by
  have ⟨steady, _, ⟨⟨stage, only, idling⟩, none_rejected⟩, spent⟩ := holds
  subst none_rejected
  cases idling with
  | waits => simp [Coordinator.answer?, only] at answered
  | idle zero =>
      have possible : s.canMove (.leave 0) = true := by simp [Coordinator.canMove, only]
      obtain ⟨q', move, after, knows⟩ := holds.move possible rfl (fun _ => rfl)
        (List.append_nil _) steady.within
      have left : (s.move (.leave 0)).calls = [] := by simp [Coordinator.move, only]
      have reports := regime.reports after knows (complete_of_calls left zero) counters
      refine ⟨q', after, knows, ⟨⟨left, zero⟩, reports⟩, ?_⟩
      have positive := p.share_pos
      rw [Coordinator.toil_of_leave move]
      simp only [ahead] at spent ⊢
      omega

theorem step (holds : Holds regime turns stance s q) (possible : s.canMove m = true)
    (steps : m.isStep = true) : ∃ q', Holds regime (turns + 1) stance (s.move m) q' := by
  have ⟨steady, known, calls, spent⟩ := holds
  have inLine : s.isInLine m = true := by
    cases m with
    | worker | call => rfl
    | _ => cases steps
  have planned : ∀ plan, m.isPlanned plan = true := by
    cases m with
    | worker | call => exact fun _ => rfl
    | _ => cases steps
  have brings : p.jobsUpTo (stance.brought p) ++ m.jobs = p.jobsUpTo (stance.brought p) := by
    cases m with
    | worker | call => exact List.append_nil _
    | _ => cases steps
  obtain ⟨q', move, after, knows⟩ := holds.move possible inLine planned brings steady.within
  refine ⟨q', after, knows, calls.of_step steady.ongoing.sound after.ongoing.sound steady.unclosed
    steady.opened possible steps move, ?_⟩
  have less := steady.ongoing.toil_of_step (p.paced_jobsUpTo _) regime.few
    (regime.endsBy steady known) possible steps move
  omega

theorem pass (holds : Holds regime turns stance s q) {instant : Instant}
    (later : s.now ≤ instant) : ∃ q', Holds regime turns stance (s.move (.elapse instant)) q' := by
  have ⟨steady, _, calls, spent⟩ := holds
  have possible : s.canMove (.elapse instant) = true := decide_eq_true later
  obtain ⟨q', move, after, knows⟩ := holds.move possible rfl (fun _ => rfl)
    (List.append_nil _) steady.within
  refine ⟨q', after, knows, calls, ?_⟩
  rw [Coordinator.toil_of_elapse move]
  exact spent

theorem turn {t : Coordinator} (holds : Holds regime turns stance s q)
    (turn : Turn p stance s stance' t) : ∃ q', Holds regime (turns + 1) stance' t q' := by
  cases turn with
  | bring left => exact holds.bring left
  | proceed answered => exact holds.proceed answered
  | wait => exact holds.wait
  | finish answered counters => exact holds.finish answered counters
  | step m possible steps => exact holds.step possible steps

end Stance.Holds

/-- What is known of the runs of a load is known all along each of them. -/
theorem Regime.holds (regime : Regime p config) (running : Running p config turns stance s) :
    ∃ q, Holds regime turns stance s q := by
  induction running with
  | start started => exact ⟨_, .start regime started⟩
  | turn running turn ih =>
      obtain ⟨q, holds⟩ := ih
      exact holds.turn turn
  | pass instant running later ih =>
      obtain ⟨q, holds⟩ := ih
      exact holds.pass later

end Load

end KeyedJobs
