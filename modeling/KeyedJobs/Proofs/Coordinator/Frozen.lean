import KeyedJobs.Proofs.Coordinator.Rejection
import KeyedJobs.Proofs.Coordinator.Shutdown

/-! # Behind a closed queue

Once a shutdown has closed the queue no job is admitted any more, so that the gauge only goes down but
for the moments in which a call is about to be refused. A refused call leaves no trace, and a later
shutdown does nothing.
-/

namespace KeyedJobs

/-- Whether the call has found the queue closed. -/
def Stage.isRefused : Stage → Bool
  | .refusing _ | .answered (.rejected .shutDown) => true
  | _ => false

/-- How many steps a call takes at most that is turned away. -/
def Stage.distance : Stage → Nat
  | .checking _ => 3
  | .pushing _ => 2
  | .refusing _ => 1
  | _ => 0

namespace Coordinator

variable {config : Config} {s t v : Coordinator} {q q' : KeyQueue Ticket} {m : Move} {i j : Nat}
  {ticket : Ticket} {stage : Stage}

/-- The queue is closed only after the mark was set, and calls are refused only behind it. -/
structure Barred (s : Coordinator) (q : KeyQueue Ticket) : Prop where
  marked : q.closed = true → s.shutDown = true
  refused : ∀ stage ∈ s.calls, stage.isRefused = true → q.closed = true

theorem isRefused_of_callStep {old new : Stage} (step : CallStep s q old new t q')
    (refused : new.isRefused = true) : q.closed = true ∨ old.isRefused = true := by
  cases step with
  | refuse closed => exact .inl closed
  | reject => exact .inr rfl
  | refuseKey =>
      unfold rejection at refused
      split at refused <;> cases refused
  | passMark finishing => cases finishing <;> cases refused
  | allDropped onward => cases onward using onward_cases <;> cases refused
  | closeQueue finishing =>
      cases policy : s.shutdownPolicy <;> cases finishing <;> rw [policy] at refused <;>
        cases refused
  | _ => cases refused

theorem isRefused_firstStage (s : Coordinator) (request : Request) :
    (s.firstStage request).isRefused = false := by
  cases request with
  | waitUntilIdle timeout =>
      simp only [firstStage]
      split <;> rfl
  | _ => rfl

theorem Barred.of_transition (barred : Barred s q) (guarded : Guarded s q)
    (move : Transition s q m t q') : Barred t q' := by
  refine ⟨marked_of_closed barred.marked guarded move, fun stage member refused => ?_⟩
  suffices closed : q.closed = true from queue_closed_of_transition closed move
  have before := barred.refused
  cases move with
  | worker _ step =>
      rw [setWorker, calls_of_workerStep step] at member
      exact before stage member refused
  | call found step =>
      rw [setCall, calls_of_callStep step] at member
      rcases List.mem_or_eq_of_mem_set member with earlier | rfl
      · exact before stage earlier refused
      · exact (isRefused_of_callStep step refused).elim id (before _ (List.mem_of_getElem? found))
  | enter request =>
      rcases List.mem_append.mp member with earlier | now
      · exact before stage earlier refused
      · rw [List.mem_singleton.mp now, isRefused_firstStage] at refused
        cases refused
  | exit => exact before stage (List.mem_of_mem_eraseIdx member) refused
  | resolve | elapse | abandon => exact before stage member refused

theorem Arises.barred (arises : Arises config s) : ∃ q, Sound s q ∧ Barred s q := by
  have starts : Barred (fresh config) .empty :=
    ⟨fun closed => (by cases closed), fun _ member => (by cases member)⟩
  obtain ⟨q, -, holds⟩ := arises.induct (P := fun s q => Sound s q ∧ Barred s q)
    ⟨.of_fresh config, starts⟩ fun _ _ ⟨sound, barred⟩ move =>
      ⟨sound.of_transition move, barred.of_transition sound.guarded move⟩
  exact ⟨q, holds⟩

theorem Sound.of_reaches (sound : Sound s q) (closed : q.closed = true) (reaches : Reaches s t) :
    ∃ q', Sound t q' ∧ q'.closed = true ∧ t.admissions = s.admissions ∧ s.counts <+: t.counts := by
  induction reaches with
  | refl => exact ⟨q, sound, closed, rfl, List.prefix_refl _⟩
  | step m _ possible ih =>
      obtain ⟨q₁, sound, closed, admitted, counted⟩ := ih
      obtain ⟨q₂, move, after⟩ := sound.move possible
      exact ⟨q₂, after, queue_closed_of_transition closed move,
        (admissions_of_refused (fun _ _ => closed) move).trans admitted,
        counted.trans (counts_of_transition move)⟩

theorem offered_of_quiet (quiet : ∀ stage ∈ s.calls, stage.enqueues = false) : s.offered = [] := by
  rw [offered, List.flatMap_eq_nil_iff]
  intro stage member
  have idle := quiet stage member
  cases stage with
  | pushing | refusing => cases idle
  | _ => rfl

theorem Sound.incomplete_le (sound : Sound s q) (closed : q.closed = true) (reaches : Reaches s t)
    (quiet : ∀ stage ∈ t.calls, stage.enqueues = false) :
    t.monitor.incomplete ≤ s.monitor.incomplete := by
  obtain ⟨q', sound', -, admitted, counted⟩ := sound.of_reaches closed reaches
  have before := sound.ledger.incomplete sound.placed
  have after := sound'.ledger.incomplete sound'.placed
  have places := sound.placed.length
  have places' := sound'.placed.length
  have counts := counted.length_le
  rw [offered_of_quiet quiet, List.length_nil] at after
  rw [admitted] at places'
  omega

theorem Custody.turnAway (custody : Custody t q) (found : t.calls[j]? = some stage)
    (unadmitted : stage.Unadmitted ticket) (turned : ticket.job.key = "" ∨ q.closed = true) :
    stage = .answered (rejection ticket.job ticket.refusal) ∨ t.canMove (.call j) = true ∧
      ∃ stage', Custody (t.move (.call j)) q ∧ (t.move (.call j)).calls[j]? = some stage' ∧
        stage'.Unadmitted ticket ∧ stage'.distance < stage.distance := by
  by_cases decided : stage = .answered (rejection ticket.job ticket.refusal)
  · exact .inl decided
  · have ready : t.canStepCall stage = true := by
      cases unadmitted with
      | rejected => exact absurd rfl decided
      | _ => rfl
    have possible : t.canMove (.call j) = true := by
      simp only [canMove, found, Option.any_some, ready]
    obtain ⟨new, v, q', step, moved⟩ := custody.callStep (i := j) ready
    have after : t.move (.call j) = v.setCall j new := by simp only [move, found, moved]
    have there : (v.setCall j new).calls[j]? = some new := by
      rw [setCall, calls_of_callStep step]
      exact List.getElem?_set_self (List.getElem?_eq_some_iff.mp found).1
    have custody' := custody.of_callStep (i := j) step
    rw [after]
    refine .inr ⟨possible, new, ?_⟩
    cases unadmitted with
    | checking =>
        cases step with
        | refuseKey empty =>
            have refusal : ticket.refusal = .invalidKey := if_pos empty
            exact ⟨custody', there, refusal ▸ .rejected, Nat.zero_lt_succ _⟩
        | raise named => exact ⟨custody', there, .pushing named, Nat.lt_succ_self _⟩
    | pushing named =>
        cases step with
        | push pushed =>
            have closed := turned.resolve_left named
            rw [(KeyQueue.push_eq_ok pushed).1] at closed
            cases closed
        | refuse => exact ⟨custody', there, .refusing named, Nat.lt_succ_self _⟩
    | refusing named =>
        cases step with
        | reject =>
            have refusal : ticket.refusal = .shutDown := if_neg named
            exact ⟨custody', there, refusal ▸ .rejected, Nat.lt_succ_self _⟩
    | rejected => cases step

theorem Custody.turnedAway (custody : Custody t q) (found : t.calls[j]? = some stage)
    (unadmitted : stage.Unadmitted ticket) (turned : ticket.job.key = "" ∨ q.closed = true) :
    ∃ steps ≤ stage.distance, t.canFollow (List.replicate steps (.call j)) = true ∧
      (t.follow (List.replicate steps (.call j))).calls[j]? =
        some (.answered (rejection ticket.job ticket.refusal)) := by
  induction left : stage.distance using Nat.strongRecOn generalizing t stage with
  | ind left ih =>
      rcases custody.turnAway found unadmitted turned with rfl | ⟨possible, stage', after⟩
      · exact ⟨0, Nat.zero_le _, rfl, found⟩
      · obtain ⟨custody', found', unadmitted', closer⟩ := after
        obtain ⟨steps, few, follows, answered⟩ :=
          ih stage'.distance (left ▸ closer) custody' found' unadmitted' rfl
        refine ⟨steps + 1, by omega, ?_, ?_⟩
        · rw [List.replicate_succ, canFollow, possible, follows, Bool.and_self]
        · rw [List.replicate_succ]
          exact answered

theorem Custody.turning (custody : Custody s q) (begun : s.calls[i]? = some stage)
    (unadmitted : stage.Unadmitted ticket) (turned : ticket.job.key = "" ∨ q.closed = true)
    (attends : Attends s i t j) :
    ∃ stage q', Custody t q' ∧ t.calls[j]? = some stage ∧ stage.Unadmitted ticket ∧
      (ticket.job.key = "" ∨ q'.closed = true) := by
  induction attends with
  | here => exact ⟨stage, q, custody, begun, unadmitted, turned⟩
  | @step t j m attends possible stays ih =>
      obtain ⟨stage, q', custody, found, unadmitted, turned⟩ := ih
      by_cases own : m = .call j
      · subst own
        rcases custody.turnAway found unadmitted turned with rfl | ⟨-, stage', after⟩
        · simp [canMove, found, canStepCall] at possible
        · exact ⟨stage', q', after.1, after.2.1, after.2.2.1, turned⟩
      · obtain ⟨q'', move⟩ := custody.transition possible
        refine ⟨stage, q'', custody.of_transition move,
          getElem?_calls_move custody found possible own stays, unadmitted, ?_⟩
        exact turned.imp_right fun closed => queue_closed_of_transition closed move

/-- What is certain about a coordinator behind a closed queue, and about the calls that it turns away.
-/
structure Frozen (s : Coordinator) (q : KeyQueue Ticket) : Prop where
  /-- Nothing is admitted any more. -/
  admissions : q.closed = true → ∀ t, Reaches s t → t.admissions = s.admissions
  /-- The gauge goes up for no longer than it takes to refuse a call. -/
  gauge : q.closed = true → ∀ t, Reaches s t → (∀ stage ∈ t.calls, stage.enqueues = false) →
    t.monitor.incomplete ≤ s.monitor.incomplete
  /-- A call is refused only behind a closed queue. -/
  refused : ∀ stage ∈ s.calls, stage.isRefused = true → q.closed = true
  /-- A call without a key, or with one behind a closed queue, is turned away for just that reason: it
  can take its steps whatever the others have done, and they bring it the answer. If dropping its
  job panics, the call ends by that panic instead. -/
  rejects : ∀ i stage ticket, s.calls[i]? = some stage → stage.Unadmitted ticket →
    (ticket.job.key = "" ∨ q.closed = true) → ∀ t j, Attends s i t j →
      ∃ steps ≤ 3, t.canFollow (List.replicate steps (.call j)) = true ∧
        (t.follow (List.replicate steps (.call j))).calls[j]? =
          some (.answered (rejection ticket.job ticket.refusal))
  /-- A coordinator that has turned a call away could have come without the call to where it is. Only
  what other calls were told about the gauge may differ. -/
  traceless : ∀ i ticket, s.calls[i]? = some (.checking ticket) → ∀ t j, Attends s i t j →
    ∀ answer, t.calls[j]? = some (.answered answer) → answer ≠ .admitted →
      answer = rejection ticket.job ticket.refusal ∧
        ∃ calls log, Reaches (s.without i) { t with calls, log } ∧
          calls.map Stage.blurred = (t.calls.eraseIdx j).map Stage.blurred
  /-- A later shutdown does nothing but to go on. -/
  shutdowns : q.closed = true → ∀ i finishing, s.calls[i]? = some (.marking finishing) →
    s.canMove (.call i) = true ∧ s.move (.call i) = s.setCall i (afterShutdown finishing)

/-- Behind a closed queue everything that calls can still bring about is to be turned away, whatever
the threads do and in whatever order. -/
theorem frozen_of_arises (arises : Arises config s) :
    ∃ q, s.queue = .sound q ∧ Frozen s q := by
  obtain ⟨q, sound, barred⟩ := arises.barred
  refine ⟨q, sound.custody.sound, ?_, ?_, barred.refused, ?_, ?_, ?_⟩
  · intro closed t reaches
    obtain ⟨-, -, -, same, -⟩ := sound.of_reaches closed reaches
    exact same
  · intro closed t reaches quiet
    exact sound.incomplete_le closed reaches quiet
  · intro i stage ticket begun unadmitted turned t j attends
    obtain ⟨stage, q', custody, found, unadmitted, turned⟩ :=
      sound.custody.turning begun unadmitted turned attends
    obtain ⟨steps, few, follows, answered⟩ := custody.turnedAway found unadmitted turned
    have short : stage.distance ≤ 3 := by cases unadmitted <;> simp [Stage.distance]
    exact ⟨steps, Nat.le_trans few short, follows, answered⟩
  · intro i ticket begun t j attends answer answered refused
    obtain ⟨stage, found, decided⟩ := parts_of_attends arises begun attends
    obtain rfl := Option.some.inj (answered.symm.trans found)
    rcases decided with admitted | ⟨unadmitted, spared⟩
    · cases admitted
      exact absurd rfl refused
    · cases unadmitted
      exact ⟨rfl, spared⟩
  · intro closed i finishing found
    have marked := barred.marked closed
    refine ⟨?_, ?_⟩
    · simp only [canMove, found, Option.any_some, canStepCall]
    · simp only [move, found, stepCall, marked, if_true]

/-- A job of "A" waits in a closed queue, and two jobs of "A", one without a key and a second
shutdown come too late. Dropping one of the jobs panics. -/
theorem frozen_of_late_calls :
    let job := Job.new "A" fun _ => .writes []
    let s := (fresh (.default .single)).follow [.begin (.enqueue job), .call 0, .call 0,
      .begin .shutdown, .call 1, .call 1, .begin (.enqueue job),
      .begin (.enqueue { job with dropPanic := some (.text "boom") }),
      .begin (.enqueue { job with key := "" }), .begin .shutdown]
    Arises (.default .single) s ∧ ∃ q, s.queue = .sound q ∧ Frozen s q := by
  intro job s
  have arises : Arises (.default .single) s := .follow rfl (by decide)
  exact ⟨arises, frozen_of_arises arises⟩

end Coordinator

end KeyedJobs
