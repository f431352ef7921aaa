import Mathlib.Data.List.InsertIdx
import KeyedJobs.Proofs.Coordinator.Ledger

/-! # Calls that are turned away

A call whose job is not admitted leaves no trace. As long as it is not decided, and after it has been
refused, the coordinator is what it could have come to without the call, but for the gauge, which the
call has raised for a while, and for what the gauge has told other calls in the meantime.
-/

namespace KeyedJobs

/-- The counters with the gauge lower by `n`. -/
def Monitor.less (m : Monitor) (n : Nat) : Monitor :=
  { m with incomplete := m.incomplete - n }

theorem Monitor.adjust_less {m : Monitor} {n : Nat} (bound : n ≤ m.incomplete)
    (adjustment : Monitor.Adjustment) :
    (m.less n).adjust adjustment = (m.adjust adjustment).less n := by
  cases adjustment with
  | raise | lower =>
      simp only [adjust, less, Monitor.mk.injEq, true_and]
      omega
  | _ => rfl

/-- Why the job is refused, if it is. -/
def Ticket.refusal (ticket : Ticket) : EnqueueError :=
  if ticket.job.key = "" then .invalidKey else .shutDown

namespace Stage

/-- The call brings the job and has not admitted it. -/
inductive Unadmitted (ticket : Ticket) : Stage → Prop where
  | checking : Unadmitted ticket (.checking ticket)
  | pushing (named : ticket.job.key ≠ "") : Unadmitted ticket (.pushing ticket)
  | refusing (named : ticket.job.key ≠ "") : Unadmitted ticket (.refusing ticket)
  | rejected : Unadmitted ticket (.answered (Coordinator.rejection ticket.job ticket.refusal))

/-- The call has admitted its job. -/
inductive Admitted : Stage → Prop where
  | admitting (key : String) : Admitted (.admitting key)
  | waking (key : String) : Admitted (.waking key)
  | answered : Admitted (.answered .admitted)

/-- By how much the call keeps the gauge raised for a job that is not admitted. -/
def raise (stage : Stage) : Nat := stage.offered.length

/-- The stage without what a call that has waited for the gauge was told. -/
def blurred : Stage → Stage
  | .answered (.idle _) => .answered (.idle true)
  | stage => stage

theorem eq_of_blurred {stage stage' : Stage} (alike : stage'.blurred = stage.blurred)
    (going : ∀ answer, stage ≠ .answered answer) : stage' = stage := by
  unfold blurred at alike
  split at alike
  · split at alike
    · exact absurd rfl (going _)
    · exact absurd alike.symm (going _)
  · split at alike
    · exact absurd rfl (going _)
    · exact alike

theorem answered_of_blurred {stage : Stage} {answer : Answer}
    (alike : stage.blurred = (Stage.answered answer).blurred) :
    ∃ answer', stage = .answered answer' := by
  have answered : ∃ answer', (Stage.answered answer).blurred = .answered answer' := by
    unfold blurred
    split <;> exact ⟨_, rfl⟩
  obtain ⟨answer', blurs⟩ := answered
  rw [blurs] at alike
  unfold blurred at alike
  split at alike
  · exact ⟨_, rfl⟩
  · exact ⟨answer', alike⟩

end Stage

namespace Coordinator

/-- Where a call stands among the others after a move, unless the move ends it. -/
def Move.place (m : Move) (j : Nat) : Nat :=
  match m with
  | .leave k => movedUp k j
  | _ => j

/-- Some moves lead from the one state to the other, and a call that has the number `i` in the first
has the number `j` in the second. -/
inductive Attends (s : Coordinator) (i : Nat) : Coordinator → Nat → Prop where
  | here : Attends s i s i
  | step {t : Coordinator} {j : Nat} (m : Move) (attends : Attends s i t j)
      (possible : t.canMove m = true) (stays : m ≠ .leave j) : Attends s i (t.move m) (m.place j)

/-- The state without one of the calls. -/
def without (s : Coordinator) (i : Nat) : Coordinator :=
  { s with calls := s.calls.eraseIdx i }

/-- The state with other calls, with another log and with the gauge lower by `n`. -/
def beside (t : Coordinator) (calls : List Stage) (log : Array Entry) (n : Nat) : Coordinator :=
  { t with calls, log, monitor := t.monitor.less n }

/-- From the origin the coordinator comes to this state without the call, with the gauge lower by `n`,
and the other calls stand where they do here, but for what the gauge has told them. -/
def Spared (origin t : Coordinator) (j n : Nat) : Prop :=
  ∃ calls log, Reaches origin (t.beside calls log n) ∧
    calls.map Stage.blurred = (t.calls.eraseIdx j).map Stage.blurred

variable {config : Config} {origin s t v w : Coordinator} {q q' q'' : KeyQueue Ticket} {m : Move}
  {calls : List Stage} {log : Array Entry} {i j k n : Nat} {ticket : Ticket} {stage : Stage}

theorem Attends.reaches (attends : Attends s i t j) : Reaches s t := by
  induction attends with
  | here => exact .refl s
  | step m _ possible _ ih => exact ih.step m possible

theorem Custody.beside (custody : Custody t q) : Custody (t.beside calls log n) q :=
  custody.undisturbed rfl (fun _ => rfl) id

theorem canStepCall_beside (ready : t.canStepCall stage = true) :
    (t.beside calls log n).canStepCall stage = true := by
  cases stage with
  | idling deadline =>
      simp only [canStepCall, Bool.or_eq_true, Monitor.isIdle, decide_eq_true_eq] at ready ⊢
      refine ready.imp_left fun idle => ?_
      simp [beside, Monitor.less, idle]
  | draining =>
      simp only [canStepCall, Monitor.isIdle, decide_eq_true_eq] at ready ⊢
      simp [beside, Monitor.less, ready]
  | _ => exact ready

theorem countResolved_beside (bound : n ≤ t.monitor.incomplete) (serial : Nat)
    (adjustment : Monitor.Adjustment) :
    (t.beside calls log n).countResolved serial adjustment =
      (t.countResolved serial adjustment).beside calls log n := by
  simp only [countResolved, adjust, note, beside, Monitor.adjust_less bound]

theorem adjust_beside (bound : n ≤ t.monitor.incomplete) (adjustment : Monitor.Adjustment) :
    (t.beside calls log n).adjust adjustment = (t.adjust adjustment).beside calls log n := by
  simp only [adjust, beside, Monitor.adjust_less bound]

theorem afterDrive_unique {worker worker' : Nat} {job : Job} {returned r r' : Resolution}
    {ending ending' : Except Panic Resolution} {lines lines' : List LogLine}
    (outcome : afterDrive worker job returned = (ending, r, lines))
    (outcome' : afterDrive worker' job returned = (ending', r', lines')) :
    ending' = ending ∧ r' = r := by
  unfold afterDrive at outcome outcome'
  cases calm : job.dropPanic <;> rw [calm] at outcome outcome' <;> cases outcome <;>
    cases outcome' <;> exact ⟨rfl, rfl⟩

theorem getElem?_of_alike (apart : j ≠ k)
    (alike : calls.map Stage.blurred = (t.calls.eraseIdx j).map Stage.blurred)
    (found : t.calls[k]? = some stage) :
    ∃ stage', calls[movedUp j k]? = some stage' ∧ stage'.blurred = stage.blurred := by
  have same := congrArg (·[movedUp j k]?) alike
  simp only [List.getElem?_map, getElem?_eraseIdx_movedUp _ apart, found, Option.map_some,
    Option.map_eq_some_iff] at same
  exact same

theorem WorkerStep.alike {old new new' : Worker} (step : WorkerStep t q old new v q')
    (step' : WorkerStep (t.beside calls log n) q old new' w q'')
    (bound : n ≤ t.monitor.incomplete) :
    new' = new ∧ q'' = q' ∧ ∃ log', w = v.beside calls log' n := by
  cases step with
  | takeWake front =>
      cases step' with
      | takeWake front' =>
          cases (front.symm.trans front' : _)
          exact ⟨rfl, rfl, _, rfl⟩
      | takeResume front' => cases (front.symm.trans front' : _)
      | leave _ empty => cases (front.symm.trans empty : _)
  | takeResume front =>
      cases step' with
      | takeWake front' => cases (front.symm.trans front' : _)
      | takeResume front' =>
          cases (front.symm.trans front' : _)
          exact ⟨rfl, rfl, _, rfl⟩
      | leave _ empty => cases (front.symm.trans empty : _)
  | leave _ empty =>
      cases step' with
      | takeWake front | takeResume front => cases (empty.symm.trans front : _)
      | leave => exact ⟨rfl, rfl, _, rfl⟩
  | activate taken =>
      cases step' with
      | activate taken' =>
          cases taken.symm.trans taken'
          exact ⟨rfl, rfl, _, rfl⟩
      | ignoreWake idle => cases taken.symm.trans idle
  | ignoreWake idle =>
      cases step' with
      | activate taken => cases idle.symm.trans taken
      | ignoreWake => exact ⟨rfl, rfl, _, rfl⟩
  | beginDrive =>
      cases step'
      exact ⟨rfl, rfl, _, rfl⟩
  | drive _ going step =>
      cases step' with
      | drive _ _ step' =>
          cases (step.symm.trans step' : _)
          exact ⟨rfl, rfl, _, rfl⟩
      | endDrive _ ended => cases going.symm.trans ended
  | endDrive _ ended outcome =>
      cases step' with
      | drive _ going => cases ended.symm.trans going
      | endDrive _ ended' outcome' =>
          cases ended.symm.trans ended'
          obtain ⟨rfl, rfl⟩ := afterDrive_unique outcome outcome'
          exact ⟨rfl, rfl, _, rfl⟩
  | handOver released =>
      cases step' with
      | handOver released' =>
          cases released.symm.trans released'
          exact ⟨rfl, rfl, _, rfl⟩
      | closeLine _ released' => cases released.symm.trans released'
  | closeLine _ released =>
      cases step' with
      | handOver released' => cases released.symm.trans released'
      | closeLine _ released' =>
          cases released.symm.trans released'
          exact ⟨rfl, rfl, _, rfl⟩
  | sendOn _ _ opened =>
      cases step' with
      | sendOn => exact ⟨rfl, rfl, _, rfl⟩
      | refuse _ _ _ closed => cases (opened.symm.trans closed : _)
  | refuse _ _ _ closed =>
      cases step' with
      | sendOn _ _ opened => cases (closed.symm.trans opened : _)
      | refuse => exact ⟨rfl, rfl, _, rfl⟩
  | shed | count =>
      cases step'
      exact ⟨rfl, rfl, _, countResolved_beside bound ..⟩
  | drop | finish =>
      cases step'
      exact ⟨rfl, rfl, _, rfl⟩

/-- A call does the same, whatever the other calls and the gauge, but that it may be told something
else about the gauge. -/
theorem CallStep.alike {old new new' : Stage} (step : CallStep t q old new v q')
    (step' : CallStep (t.beside calls log n) q old new' w q'')
    (bound : n ≤ t.monitor.incomplete) :
    new'.blurred = new.blurred ∧ q'' = q' ∧ ∃ log', w = v.beside calls log' n := by
  cases step with
  | refuseKey empty =>
      cases step' with
      | refuseKey => exact ⟨rfl, rfl, _, rfl⟩
      | raise named => exact absurd empty named
  | raise named =>
      cases step' with
      | refuseKey empty => exact absurd empty named
      | raise => exact ⟨rfl, rfl, _, adjust_beside bound _⟩
  | push pushed =>
      cases step' with
      | push pushed' =>
          cases pushed.symm.trans pushed'
          exact ⟨rfl, rfl, _, rfl⟩
      | refuse closed => simp [KeyQueue.push, closed] at pushed
  | refuse closed =>
      cases step' with
      | push pushed => simp [KeyQueue.push, closed] at pushed
      | refuse => exact ⟨rfl, rfl, _, rfl⟩
  | reject =>
      cases step' with
      | reject _ log' =>
          refine ⟨rfl, rfl, log', ?_⟩
          rw [adjust_beside bound]
          rfl
  | countAdmitted =>
      cases step'
      exact ⟨rfl, rfl, _, adjust_beside bound _⟩
  | wake _ opened =>
      cases step' with
      | wake => exact ⟨rfl, rfl, _, rfl⟩
      | wakeNobody _ _ closed => cases (opened.symm.trans closed : _)
  | wakeNobody _ _ closed =>
      cases step' with
      | wake _ opened => cases (closed.symm.trans opened : _)
      | wakeNobody => exact ⟨rfl, rfl, _, rfl⟩
  | mark _ first =>
      cases step' with
      | mark => exact ⟨rfl, rfl, _, rfl⟩
      | passMark _ marked => cases (first.symm.trans marked : _)
  | passMark _ marked =>
      cases step' with
      | mark _ first => cases (marked.symm.trans first : _)
      | passMark => exact ⟨rfl, rfl, _, rfl⟩
  | count =>
      cases step'
      exact ⟨rfl, rfl, _, countResolved_beside bound ..⟩
  | _ =>
      cases step'
      exact ⟨rfl, rfl, _, rfl⟩

theorem Spared.worker (spared : Spared origin t j n) (custody : Custody t q)
    (bound : n ≤ t.monitor.incomplete) (possible : t.canMove (.worker i) = true) :
    Spared origin (t.move (.worker i)) j n := by
  obtain ⟨calls, log, reached, alike⟩ := spared
  have possible' : (t.beside calls log n).canMove (.worker i) = true := possible
  have next := reached.step (.worker i) possible'
  simp only [canMove] at possible
  cases found : t.workers[i]? with
  | none => simp [found] at possible
  | some old =>
      have ready : t.canStepWorker old = true := by simpa [found] using possible
      have found' : (t.beside calls log n).workers[i]? = some old := found
      obtain ⟨new, v, q', step, moved⟩ := custody.workerStep found ready
      obtain ⟨new', w, q'', step', moved'⟩ := custody.beside.workerStep found' ready
      obtain ⟨rfl, rfl, log', rfl⟩ := step.alike step' bound
      simp only [move, found', moved'] at next
      simp only [move, found, moved]
      refine ⟨calls, log', next, ?_⟩
      rw [setWorker, calls_of_workerStep step, alike]

theorem Spared.call (spared : Spared origin t j n) (custody : Custody t q)
    (bound : n ≤ t.monitor.incomplete) (apart : j ≠ k) (possible : t.canMove (.call k) = true) :
    Spared origin (t.move (.call k)) j n := by
  obtain ⟨calls, log, reached, alike⟩ := spared
  simp only [canMove] at possible
  cases found : t.calls[k]? with
  | none => simp [found] at possible
  | some old =>
      have ready : t.canStepCall old = true := by simpa [found] using possible
      have found' : (t.beside calls log n).calls[movedUp j k]? = some old := by
        obtain ⟨old', there, blurs⟩ := getElem?_of_alike apart alike found
        rw [Stage.eq_of_blurred blurs] at there
        · exact there
        · rintro answer rfl
          cases ready
      have ready' : (t.beside calls log n).canStepCall old = true := canStepCall_beside ready
      have possible' : (t.beside calls log n).canMove (.call (movedUp j k)) = true := by
        simp only [canMove, found', Option.any_some, ready']
      have next := reached.step (.call (movedUp j k)) possible'
      obtain ⟨new, v, q', step, moved⟩ := custody.callStep (i := k) ready
      obtain ⟨new', w, q'', step', moved'⟩ := custody.beside.callStep (i := movedUp j k) ready'
      obtain ⟨blurs, rfl, log', rfl⟩ := step.alike step' bound
      simp only [move, found', moved'] at next
      simp only [move, found, moved]
      refine ⟨calls.set (movedUp j k) new', log', next, ?_⟩
      rw [setCall, calls_of_callStep step, eraseIdx_set_movedUp _ apart, List.map_set, List.map_set,
        alike, blurs]

theorem Spared.enter (spared : Spared origin t j n) (found : t.calls[j]? = some stage)
    {request : Request} (possible : t.canMove (.begin request) = true) :
    Spared origin (t.move (.begin request)) j n := by
  obtain ⟨calls, log, reached, alike⟩ := spared
  have inside := (List.getElem?_eq_some_iff.mp found).1
  refine ⟨_, log, reached.step (.begin request) possible, ?_⟩
  change (calls ++ [t.firstStage request]).map Stage.blurred =
    ((t.calls ++ [t.firstStage request]).eraseIdx j).map Stage.blurred
  rw [List.eraseIdx_append_of_lt_length inside, List.map_append, List.map_append, alike]

theorem Spared.exit (spared : Spared origin t j n) (apart : j ≠ k)
    (possible : t.canMove (.leave k) = true) :
    Spared origin (t.move (.leave k)) ((Move.leave k).place j) n := by
  obtain ⟨calls, log, reached, alike⟩ := spared
  have possible' : (t.beside calls log n).canMove (.leave (movedUp j k)) = true := by
    simp only [canMove] at possible ⊢
    obtain ⟨stage, found, answered⟩ := (Option.any_eq_true ..).mp possible
    obtain ⟨answer, rfl⟩ : ∃ answer, stage = .answered answer := by
      cases stage <;> simp at answered ⊢
    obtain ⟨stage', there, blurs⟩ := getElem?_of_alike apart alike found
    obtain ⟨answer', rfl⟩ := Stage.answered_of_blurred blurs
    have there : (t.beside calls log n).calls[movedUp j k]? = some (.answered answer') := there
    rw [there]
    rfl
  refine ⟨_, log, reached.step _ possible', ?_⟩
  change (calls.eraseIdx (movedUp j k)).map Stage.blurred =
    ((t.calls.eraseIdx k).eraseIdx (movedUp k j)).map Stage.blurred
  rw [← eraseIdx_eraseIdx_movedUp _ apart, ← List.eraseIdx_map, ← List.eraseIdx_map, alike]

/-- The other threads do the same. -/
theorem Spared.move (spared : Spared origin t j stage.raise) (custody : Custody t q)
    (bound : stage.raise ≤ t.monitor.incomplete) (found : t.calls[j]? = some stage)
    (possible : t.canMove m = true) (others : m ≠ .call j) (stays : m ≠ .leave j) :
    Spared origin (t.move m) (m.place j) stage.raise := by
  cases m with
  | worker i => exact spared.worker custody bound possible
  | call k => exact spared.call custody bound (fun same => others (same ▸ rfl)) possible
  | begin request => exact spared.enter found possible
  | leave k => exact spared.exit (fun same => stays (same ▸ rfl)) possible
  | resolve gate result =>
      obtain ⟨calls, log, reached, alike⟩ := spared
      exact ⟨calls, log, reached.step (.resolve gate result) possible, alike⟩
  | elapse instant =>
      obtain ⟨calls, log, reached, alike⟩ := spared
      exact ⟨calls, log, reached.step (.elapse instant) possible, alike⟩
  | abandon =>
      simp only [canMove, Bool.and_eq_true, List.isEmpty_iff] at possible
      simp [possible.1] at found

theorem CallStep.unadmitted {old new : Stage} (step : CallStep t q old new v q')
    (unadmitted : old.Unadmitted ticket) :
    new.Admitted ∨ new.Unadmitted ticket ∧
      ∀ calls log, v.beside calls log new.raise = t.beside calls log old.raise := by
  cases unadmitted with
  | checking =>
      cases step with
      | refuseKey empty =>
          have refusal : ticket.refusal = .invalidKey := if_pos empty
          exact .inr ⟨refusal ▸ .rejected, fun _ _ => rfl⟩
      | raise named => exact .inr ⟨.pushing named, fun _ _ => rfl⟩
  | pushing named =>
      cases step with
      | push => exact .inl (.admitting _)
      | refuse => exact .inr ⟨.refusing named, fun _ _ => rfl⟩
  | refusing named =>
      cases step with
      | reject =>
          have refusal : ticket.refusal = .shutDown := if_neg named
          exact .inr ⟨refusal ▸ .rejected, fun _ _ => rfl⟩
  | rejected => cases step

theorem CallStep.admitted {old new : Stage} (step : CallStep t q old new v q')
    (admitted : old.Admitted) : new.Admitted := by
  cases admitted with
  | admitting key =>
      cases step
      exact .waking key
  | waking key => cases step <;> exact .answered
  | answered => cases step

theorem getElem?_calls_move (custody : Custody t q) (found : t.calls[j]? = some stage)
    (possible : t.canMove m = true) (others : m ≠ .call j) (stays : m ≠ .leave j) :
    (t.move m).calls[m.place j]? = some stage := by
  obtain ⟨q', move⟩ := custody.transition possible
  generalize t.move m = u at move
  cases move with
  | worker _ step => rwa [setWorker, calls_of_workerStep step]
  | @call k _ _ _ _ there step =>
      have apart : k ≠ j := fun same => others (same ▸ rfl)
      rw [setCall, calls_of_callStep step]
      exact (List.getElem?_set_ne apart).trans found
  | enter request =>
      exact (List.getElem?_append_left (List.getElem?_eq_some_iff.mp found).1).trans found
  | @exit k =>
      have apart : k ≠ j := fun same => stays (same ▸ rfl)
      exact (getElem?_eraseIdx_movedUp _ apart).trans found
  | resolve | elapse | abandon => exact found

/-- The call has admitted its job, or the coordinator has come without it to where it is, but for the
gauge. -/
def Parts (ticket : Ticket) (origin t : Coordinator) (j : Nat) : Prop :=
  ∃ stage, t.calls[j]? = some stage ∧
    (stage.Admitted ∨ stage.Unadmitted ticket ∧ Spared origin t j stage.raise)

theorem Parts.own (parts : Parts ticket origin t j) (custody : Custody t q)
    (possible : t.canMove (.call j) = true) : Parts ticket origin (t.move (.call j)) j := by
  obtain ⟨stage, found, decided⟩ := parts
  have ready : t.canStepCall stage = true := by
    simpa only [canMove, found, Option.any_some] using possible
  obtain ⟨new, v, q', step, moved⟩ := custody.callStep (i := j) ready
  have same := calls_of_callStep step
  have after : (t.move (.call j)) = v.setCall j new := by
    simp only [Coordinator.move, found, moved]
  rw [after]
  refine ⟨new, ?_, ?_⟩
  · rw [setCall, same]
    exact List.getElem?_set_self (List.getElem?_eq_some_iff.mp found).1
  · rcases decided with admitted | ⟨unadmitted, calls, log, reached, alike⟩
    · exact .inl (step.admitted admitted)
    · rcases step.unadmitted unadmitted with admitted | ⟨unadmitted, kept⟩
      · exact .inl admitted
      · rw [← kept] at reached
        refine .inr ⟨unadmitted, calls, log, reached, ?_⟩
        rw [setCall, same, List.eraseIdx_set_eq, alike]

theorem raise_le_one (stage : Stage) : stage.raise ≤ 1 := by
  cases stage <;> simp [Stage.raise, Stage.offered]

theorem Ledger.raise_le (ledger : Ledger t) (placed : Placed t q) (found : t.calls[j]? = some stage) :
    stage.raise ≤ t.monitor.incomplete := by
  have single := raise_le_one stage
  by_cases offers : stage.offered = []
  · simp [Stage.raise, offers]
  · have raised := ledger.raised_of_offer placed (List.mem_of_getElem? found) offers
    omega

theorem parts_of_attends (arises : Arises config s) (begun : s.calls[i]? = some (.checking ticket))
    (attends : Attends s i t j) : Parts ticket (s.without i) t j := by
  induction attends with
  | here => exact ⟨_, begun, .inr ⟨.checking, s.calls.eraseIdx i, s.log, .refl _, rfl⟩⟩
  | @step t j m attends possible stays ih =>
      obtain ⟨q, custody, placed, ledger⟩ := (arises.reaches attends.reaches).booked
      by_cases own : m = .call j
      · subst own
        exact ih.own custody possible
      · obtain ⟨stage, found, decided⟩ := ih
        refine ⟨stage, getElem?_calls_move custody found possible own stays, ?_⟩
        rcases decided with admitted | ⟨unadmitted, spared⟩
        · exact .inl admitted
        · have bound := ledger.raise_le placed found
          exact .inr ⟨unadmitted, spared.move custody bound found possible own stays⟩

end Coordinator

end KeyedJobs
