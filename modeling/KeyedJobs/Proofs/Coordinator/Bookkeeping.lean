import KeyedJobs.Proofs.Coordinator.Custody
import KeyedJobs.Proofs.Coordinator.Ledger

/-! # The counters and what they count

Each counter of endings shows what the history of the run gives rise to: every end of a drive and
every dropped job is due some adjustments of the counters, and they have been made or some thread
still owes them.
-/

namespace KeyedJobs

open Monitor (Adjustment)

/-- The counters that change when a job is resolved. -/
inductive Monitor.Counter where
  | succeeded
  | abandoned
  | retried
  | compensated
  | discarded

namespace Monitor.Counter

def read : Counter → Monitor → Nat
  | .succeeded, m => m.succeeded
  | .abandoned, m => m.abandoned
  | .retried, m => m.retried
  | .compensated, m => m.compensated
  | .discarded, m => m.discarded

/-- What the adjustment adds to the counter. -/
def weight : Counter → Adjustment → Nat
  | .succeeded, .success => 1
  | .abandoned, .abandonment => 1
  | .retried, .retries times => times
  | .compensated, .compensation => 1
  | .discarded, .discard => 1
  | _, _ => 0

theorem read_adjust (counter : Counter) (m : Monitor) (adjustment : Adjustment) :
    counter.read (m.adjust adjustment) = counter.read m + counter.weight adjustment := by
  cases counter <;> cases adjustment <;> rfl

theorem weight_finished (counter : Counter) (r : Resolution) :
    tally counter.weight (Change.finished r).adjustments =
      match counter with
      | .succeeded => if r.state = .succeeded then 1 else 0
      | .abandoned => if r.state = .succeeded then 0 else 1
      | .retried => r.attempts - 1
      | .compensated => if r.compensated then 1 else 0
      | .discarded => 0 := by
  simp only [Change.adjustments, Adjustment.ofEnding]
  cases counter <;> split <;> split <;> simp [weight]

end Monitor.Counter

open Monitor (Counter)

/-- How a drive ended, as it is counted. -/
def resolutionOf (key : String) : Except Panic Resolution → Resolution
  | .ok resolution => resolution
  | .error _ => ⟨key, .abandoned, 0, false⟩

/-- The adjustments that the event is due. -/
def Event.dues : Event → List Adjustment
  | .driven _ key ending => (Monitor.Change.finished (resolutionOf key ending)).adjustments
  | .discarded _ _ => Monitor.Change.discarded.adjustments
  | _ => []

/-- The adjustments that the worker has still to make. -/
def Worker.owes : Worker → List Adjustment
  | .releasing done | .resuming _ done | .crashed (some done) =>
      (Monitor.Change.finished done.resolution).adjustments
  | .shedding _ left done => left ++ (Monitor.Change.finished done.resolution).adjustments
  | .counting _ left => left
  | _ => []

/-- The adjustments that the call has still to make. -/
def Stage.owes : Stage → List Adjustment
  | .dropping tickets _ => tickets.flatMap fun _ => Monitor.Change.discarded.adjustments
  | .discounting _ left rest _ => left ++ rest.flatMap fun _ => Monitor.Change.discarded.adjustments
  | _ => []

namespace Coordinator

variable {config : Config} {s t : Coordinator} {q q' : KeyQueue Ticket} {m : Move}

/-- The adjustments that the threads have still to make. -/
def owed (s : Coordinator) : List Adjustment :=
  s.workers.flatMap Worker.owes ++ s.calls.flatMap Stage.owes

/-- The adjustments that everything that has happened is due. -/
def due (s : Coordinator) : List Adjustment := s.history.toList.flatMap Event.dues

/-- Every adjustment that is due has been made or is owed. -/
def Booked (s : Coordinator) : Prop :=
  ∀ counter : Counter,
    counter.read s.monitor + tally counter.weight s.owed = tally counter.weight s.due

theorem due_note (s : Coordinator) (events : List Event) :
    (s.note events).due = s.due ++ events.flatMap Event.dues := by
  simp [due, note]

theorem due_countResolved (s : Coordinator) (serial : Nat) (adjustment : Adjustment) :
    (s.countResolved serial adjustment).due = s.due := by
  unfold countResolved
  rw [due_note]
  split <;> simp [Event.dues, due, adjust]

theorem dues_called (serial : Nat) (key : String) (made : List JobCall) :
    (made.map (Event.called serial key)).flatMap Event.dues = [] := by
  simp [List.flatMap_map, Event.dues]

theorem dues_driven {worker serial : Nat} {key : String} {job : Job}
    {returned resolution : Resolution} {ending : Except Panic Resolution} {lines : List LogLine}
    (outcome : afterDrive worker job returned = (ending, resolution, lines)) :
    (Event.driven serial key ending).dues =
      (Monitor.Change.finished resolution).adjustments := by
  unfold afterDrive at outcome
  split at outcome
  · cases outcome
    rfl
  · cases outcome
    rfl

theorem owes_afterShedding (next : Ticket) (done : Driven) :
    (afterShedding next done).owes = (Monitor.Change.finished done.resolution).adjustments := by
  unfold afterShedding
  split <;> rfl

theorem booked_of_workerStep {old new : Worker} (step : WorkerStep s q old new t q')
    (counter : Counter) :
    counter.read t.monitor + tally counter.weight new.owes + tally counter.weight s.due =
      counter.read s.monitor + tally counter.weight old.owes + tally counter.weight t.due := by
  cases step with
  | drive =>
      rw [due_note, dues_called, List.append_nil]
      rfl
  | endDrive log ended outcome =>
      rw [due_note, List.flatMap_singleton, dues_driven outcome, tally_append]
      simp only [Worker.owes, note, due, tally_nil]
      omega
  | refuse next done =>
      rw [due_note, List.flatMap_singleton, tally_append]
      simp only [Worker.owes, Event.dues, note, due, tally_append]
      omega
  | shed next adjustment left done =>
      rw [due_countResolved, monitor_countResolved, Counter.read_adjust]
      simp only [Worker.owes, tally_append, tally_cons]
      omega
  | count done adjustment left =>
      rw [due_countResolved, monitor_countResolved, Counter.read_adjust]
      simp only [Worker.owes, tally_cons]
      omega
  | drop next done =>
      rw [owes_afterShedding]
      rfl
  | _ => rfl

theorem booked_of_callStep {old new : Stage} (step : CallStep s q old new t q')
    (counter : Counter) :
    counter.read t.monitor + tally counter.weight new.owes + tally counter.weight s.due =
      counter.read s.monitor + tally counter.weight old.owes + tally counter.weight t.due := by
  cases step with
  | raise | reject | countAdmitted =>
      simp only [adjust, Counter.read_adjust]
      cases counter <;> rfl
  | push =>
      rw [due_note]
      exact congrArg _ (congrArg _ (List.append_nil s.due).symm)
  | discard =>
      rw [due_note, List.flatMap_map, tally_append]
      simp only [Stage.owes, Event.dues, note, due, List.flatMap_map, tally_nil]
      omega
  | count ticket adjustment left =>
      rw [due_countResolved, monitor_countResolved, Counter.read_adjust]
      simp only [Stage.owes, tally_append, tally_cons]
      omega
  | passMark finishing => cases finishing <;> rfl
  | allDropped onward => cases onward using onward_cases <;> rfl
  | closeQueue finishing => cases s.shutdownPolicy <;> cases finishing <;> rfl
  | _ => rfl

theorem Booked.of_transition (booked : Booked s) (move : Transition s q m t q') : Booked t := by
  intro counter
  have before := booked counter
  simp only [owed, tally_append, tally_flatMap] at before ⊢
  cases move with
  | @worker i old new t q' found step =>
      have moved := booked_of_workerStep step counter
      have set := tally_set (fun worker : Worker => tally counter.weight worker.owes) found new
      have workers := workers_of_workerStep step
      have calls := calls_of_workerStep step
      simp only [setWorker, due, workers, calls] at *
      omega
  | @call i old new t q' found step =>
      have moved := booked_of_callStep step counter
      have set := tally_set (fun stage : Stage => tally counter.weight stage.owes) found new
      have workers := workers_of_callStep step
      have calls := calls_of_callStep step
      simp only [setCall, due, workers, calls] at *
      omega
  | enter request =>
      have first : tally counter.weight (s.firstStage request).owes = 0 :=
        s.firstStage_cases request (motive := fun stage => tally counter.weight stage.owes = 0)
          (fun _ => rfl) (fun _ => rfl) (fun _ => rfl) fun _ => rfl
      rw [tally_append, tally_cons, tally_nil, first]
      exact before
  | @exit i answer found =>
      have erased : tally (fun stage : Stage => tally counter.weight stage.owes)
          (s.calls.eraseIdx i) = tally (fun stage => tally counter.weight stage.owes) s.calls :=
        tally_eraseIdx (fun stage : Stage => tally counter.weight stage.owes) found
      simp only [due] at before ⊢
      omega
  | resolve | elapse | abandon => exact before

theorem Booked.of_fresh (config : Config) : Booked (fresh config) := by
  intro counter
  rw [owed, tally_append, tally_flatMap, tally_workers_fresh config rfl]
  cases counter <;> rfl

end Coordinator

end KeyedJobs
