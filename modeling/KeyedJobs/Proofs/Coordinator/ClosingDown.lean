import KeyedJobs.Proofs.Coordinator.Finishing
import KeyedJobs.Proofs.Coordinator.Pacing

/-! # Closing down

A call that finishes while the gauge is at zero has nobody to wait for but workers that are about to
end. It is the only call, so somebody can step until it is answered, and every step leaves less to
do.
-/

namespace KeyedJobs

open Coordinator (CallStep)

variable {s t : Coordinator} {q q' : KeyQueue Ticket} {old new : Stage}

/-- The call is on its way to finish, or has finished. -/
inductive Stage.Finishing (s : Coordinator) : Stage → Prop where
  | marking : Finishing s (.marking true)
  | closing : Finishing s (.closing true)
  | discarding : Finishing s (.discarding true)
  | dropping (tickets : List Ticket) : Finishing s (.dropping tickets (.ok true))
  | discounting (ticket : Ticket) (left : List Monitor.Adjustment) (rest : List Ticket) :
      Finishing s (.discounting ticket left rest (.ok true))
  | draining : Finishing s .draining
  | hangingUp : Finishing s .hangingUp
  | gathering (closed : s.channel.closed = true) : Finishing s .gathering
  | joining (workers : List Nat) (closed : s.channel.closed = true) : Finishing s (.joining workers)
  | finished : Finishing s (.answered .done)

theorem Stage.Finishing.of_callStep (finishing : old.Finishing s) (none_waits : q.allWaiting = [])
    (step : CallStep s q old new t q') : new.Finishing t := by
  cases finishing with
  | marking =>
      cases step with
      | mark => exact .closing
      | passMark => exact .draining
  | closing =>
      cases step
      cases s.shutdownPolicy with
      | drain => exact .draining
      | discard => exact .discarding
  | discarding =>
      cases step
      rw [none_waits]
      exact .dropping _
  | dropping =>
      cases step with
      | discount => exact .discounting _ _ _
      | allDropped => exact .draining
  | discounting =>
      cases step with
      | count => exact .discounting _ _ _
      | nextDropped => exact .dropping _
  | draining =>
      cases step
      exact .hangingUp
  | hangingUp =>
      cases step
      exact .gathering rfl
  | gathering closed =>
      cases step
      exact .joining _ closed
  | joining =>
      cases step
      exact .finished
  | finished => cases step

theorem Stage.Finishing.same {stage : Stage} (finishing : stage.Finishing s)
    (same : s.channel.closed = true → t.channel.closed = true) : stage.Finishing t := by
  cases finishing with
  | gathering closed => exact .gathering (same closed)
  | joining workers closed => exact .joining workers (same closed)
  | marking => exact .marking
  | closing => exact .closing
  | discarding => exact .discarding
  | dropping => exact .dropping _
  | discounting => exact .discounting _ _ _
  | draining => exact .draining
  | hangingUp => exact .hangingUp
  | finished => exact .finished

theorem Stage.Finishing.offered {stage : Stage} (finishing : stage.Finishing s) :
    stage.offered = [] := by
  cases finishing <;> rfl

namespace Coordinator

variable {m : Move} {fuel : Nat}

theorem incomplete_of_transition (before : Sound s q) (after : Sound t q')
    (zero : s.monitor.incomplete = 0) (unoffered : s.offered = []) (offers : t.offered = [])
    (move : Transition s q m t q') : t.monitor.incomplete = 0 := by
  have shown := before.ledger.incomplete before.placed
  have empty : s.placed q = [] := List.length_eq_zero_iff.mp (by omega)
  have unpushed : ∀ ticket, .pushing ticket ∉ s.calls := fun ticket pushing => by
    cases List.flatMap_eq_nil_iff.mp unoffered _ pushing
  have admissions := admissions_of_refused (fun ticket member => absurd member (unpushed ticket)) move
  have shown' := after.ledger.incomplete after.placed
  rw [offers, placed_of_transition empty before.placed after.placed move admissions] at shown'
  exact shown'

theorem alone_of_callStep {i : Nat} {stage : Stage} (only : s.calls = [stage])
    (found : s.calls[i]? = some old) (step : CallStep s q old new t q') :
    old = stage ∧ (t.setCall i new).calls = [new] := by
  rw [only, List.getElem?_singleton] at found
  split at found
  · subst i
    obtain rfl := Option.some.inj found
    rw [setCall, calls_of_callStep step, only]
    exact ⟨rfl, rfl⟩
  · cases found

theorem closed_of_workerStep {old new : Worker} (step : WorkerStep s q old new t q')
    (closed : s.channel.closed = true) : t.channel.closed = true := by
  cases step with
  | sendOn _ _ opened =>
      rw [closed] at opened
      cases opened
  | _ => exact closed

/-- The gauge is at zero, and the only call finishes. -/
structure ClosingDown (s : Coordinator) (q : KeyQueue Ticket) : Prop where
  sound : Sound s q
  zero : s.monitor.incomplete = 0
  calls : ∃ stage, s.calls = [stage] ∧ stage.Finishing s

namespace ClosingDown

theorem offered (closing : ClosingDown s q) : s.offered = [] := by
  obtain ⟨stage, only, finishing⟩ := closing.calls
  rw [Coordinator.offered, only, List.flatMap_singleton, finishing.offered]

theorem placed (closing : ClosingDown s q) : s.placed q = [] := by
  have shown := closing.sound.ledger.incomplete closing.sound.placed
  have zero := closing.zero
  exact List.length_eq_zero_iff.mp (by omega)

theorem not_drives (closing : ClosingDown s q) {worker : Worker} (member : worker ∈ s.workers) :
    worker.drives = false := by
  have empty := closing.placed
  simp only [Coordinator.placed, List.append_eq_nil_iff, taken, List.flatMap_eq_nil_iff] at empty
  have untaken := empty.1.2 worker member
  cases worker with
  | driving => cases untaken
  | _ => rfl

theorem of_transition (closing : ClosingDown s q) (calls : ∃ stage, t.calls = [stage] ∧
    stage.Finishing t) (move : Transition s q m t q') : ClosingDown t q' := by
  have sound := closing.sound.of_transition move
  obtain ⟨stage, only, finishing⟩ := calls
  have offers : t.offered = [] := by
    rw [Coordinator.offered, only, List.flatMap_singleton, finishing.offered]
  exact ⟨sound, incomplete_of_transition closing.sound sound closing.zero closing.offered offers move,
    stage, only, finishing⟩

theorem step (closing : ClosingDown s q) (possible : s.canMove m = true) (steps : m.isStep = true) :
    ∃ q', ClosingDown (s.move m) q' ∧ (s.move m).effort q' < s.effort q := by
  obtain ⟨stage, only, finishing⟩ := closing.calls
  obtain ⟨q', move⟩ := closing.sound.custody.transition possible
  generalize s.move m = t at move
  cases id move with
  | @worker i old new t q' found step =>
      have other := closing.not_drives (List.mem_of_getElem? found)
      have same : (t.setWorker i new).calls = [stage] := (calls_of_workerStep step).trans only
      refine ⟨q', closing.of_transition ⟨stage, same, ?_⟩ move,
        effort_of_worker closing.sound.custody found other move⟩
      exact finishing.same fun closed => (closed_of_workerStep step closed : _)
  | @call i old new t q' found step =>
      obtain ⟨rfl, now⟩ := alone_of_callStep only found step
      have none_waits := allWaiting_of_placed closing.placed
      have kept := (finishing.of_callStep none_waits step).same (t := t.setCall i new) id
      exact ⟨q', closing.of_transition ⟨new, now, kept⟩ move, effort_of_call move⟩
  | _ => cases steps

theorem of_enter (sound : Sound s q) (zero : s.monitor.incomplete = 0) (uncalled : s.calls = [])
    (move : Transition s q (.begin .waitUntilFinished) t q') :
    ClosingDown t q' ∧ t.effort q' = s.effort q + (Stage.marking true).effort := by
  have unoffered : s.offered = [] := by rw [Coordinator.offered, uncalled, List.flatMap_nil]
  have after := sound.of_transition move
  have only : t.calls = [.marking true] := by
    cases id move
    rw [uncalled]
    rfl
  have offers : t.offered = [] := by
    rw [Coordinator.offered, only]
    rfl
  exact ⟨⟨after, incomplete_of_transition sound after zero unoffered offers move, _, only, .marking⟩,
    effort_of_enter move⟩

theorem pass (closing : ClosingDown s q) {instant : Instant} (later : s.now ≤ instant) :
    ∃ q', ClosingDown (s.move (.elapse instant)) q' ∧
      (s.move (.elapse instant)).effort q' = s.effort q := by
  obtain ⟨stage, only, finishing⟩ := closing.calls
  have possible : s.canMove (.elapse instant) = true := decide_eq_true later
  obtain ⟨q', move⟩ := closing.sound.custody.transition possible
  refine ⟨q', closing.of_transition ⟨stage, only, finishing.same id⟩ move, ?_⟩
  cases move
  rfl

theorem canStepWorker (closing : ClosingDown s q) (closed : s.channel.closed = true) {i : Nat}
    (working : s.hasEnded i = false) :
    ∃ worker ∈ s.workers, s.canStepWorker worker = true := by
  unfold hasEnded at working
  cases found : s.workers[i]? with
  | none => simp [found] at working
  | some worker =>
      have member := List.mem_of_getElem? found
      have other := closing.not_drives member
      refine ⟨worker, member, ?_⟩
      cases worker with
      | ended | crashed => simp [found] at working
      | driving => cases other
      | receiving => simp [Coordinator.canStepWorker, hasSignal, closed]
      | activating | holding | releasing | resuming | shedding | counting => rfl

theorem exists_nextStep? (closing : ClosingDown s q) (unanswered : s.answer? 0 = none) :
    ∃ m, s.nextStep? = some m := by
  obtain ⟨stage, only, finishing⟩ := closing.calls
  have call (possible : s.canStepCall stage = true) : ∃ m, s.nextStep? = some m := by
    cases next : s.nextStep? with
    | some m => exact ⟨m, rfl⟩
    | none =>
        have stuck := (nextStep?_eq_none next).2 stage (only ▸ List.mem_singleton.mpr rfl)
        rw [possible] at stuck
        cases stuck
  cases finishing with
  | finished => simp [answer?, only] at unanswered
  | draining => exact call (decide_eq_true closing.zero)
  | joining workers closed =>
      cases ended : workers.all s.hasEnded with
      | true => exact call ended
      | false =>
          obtain ⟨i, -, working⟩ := List.all_eq_false.mp ended
          obtain ⟨worker, member, possible⟩ :=
            closing.canStepWorker closed (Bool.eq_false_iff.mpr working)
          exact Coordinator.exists_nextStep? member possible
  | marking | closing | discarding | dropping | discounting | hangingUp | gathering =>
      exact call rfl

theorem run (closing : ClosingDown s q) (enough : s.effort q < fuel) :
    ((s.run (fun s => (s.answer? 0).isSome) none fuel).answer? 0).isSome = true := by
  induction fuel generalizing s q with
  | zero => exact absurd enough (Nat.not_lt_zero _)
  | succ fuel ih =>
      unfold Coordinator.run
      cases answered : s.answer? 0 with
      | some answer => simp [answered]
      | none =>
          obtain ⟨m, next⟩ := closing.exists_nextStep? answered
          obtain ⟨possible, steps⟩ := of_nextStep? next
          obtain ⟨q', closing', less⟩ := closing.step possible steps
          have scheduled : s.nextMove? none = some m := by rw [nextMove?, next]
          simp only [Option.isSome_none, Bool.false_eq_true, if_false, scheduled]
          exact ih closing' (by omega)

end ClosingDown

end Coordinator

end KeyedJobs
