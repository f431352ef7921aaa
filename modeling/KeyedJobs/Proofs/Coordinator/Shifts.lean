import Mathlib.Data.List.Perm.Basic
import KeyedJobs.Proofs.Coordinator.Custody

/-! # What a move does to the jobs

A job that is outside the queue and not released is fresh, underway or settled. The many moves of the
threads come down to a few shifts: a job joins its line, is handed out, begins, makes a step of its
drive, ends, and is released, or it is dropped on the way.
-/

namespace KeyedJobs

/-- How far a job is that is outside the queue and not released. -/
inductive Bearing where
  | fresh (ticket : Ticket)
  | underway (ticket : Ticket) (drive : Drive)
  | settled (done : Driven)

def Bearing.key : Bearing → String
  | .fresh ticket | .underway ticket _ => ticket.job.key
  | .settled done => done.key

def Bearing.serial : Bearing → Nat
  | .fresh ticket | .underway ticket _ => ticket.serial
  | .settled done => done.serial

/-- The job that the worker has taken and neither released nor sent on. -/
def Worker.bearing : Worker → List Bearing
  | .holding ticket | .resuming ticket _ => [.fresh ticket]
  | .driving ticket drive => [.underway ticket drive]
  | .releasing done => [.settled done]
  | _ => []

def Signal.bearing : Signal → List Bearing
  | .resume ticket => [.fresh ticket]
  | .wake _ => []

/-- The key of the job that the event is about. That a job was counted is no matter of its key. -/
def Event.key? : Event → Option String
  | .admitted _ key | .called _ key _ | .driven _ key _ | .discarded _ key => some key
  | .counted _ => none

namespace Coordinator

variable {s t : Coordinator} {q q' : KeyQueue Ticket} {m : Move} {key : String}

def bearings (s : Coordinator) : List Bearing :=
  s.workers.flatMap Worker.bearing ++ s.channel.held.flatMap Signal.bearing

/-- Some bearings make way for others, and the rest stays. -/
def Exchange (s t : Coordinator) (old new : List Bearing) : Prop :=
  ∃ kept, s.bearings.Perm (old ++ kept) ∧ t.bearings.Perm (new ++ kept)

/-- What happens to the jobs in a move: the bearings that it takes away, those that it puts in their
place, the events that it notes, and the queue after it. -/
inductive Shift (s : Coordinator) (q : KeyQueue Ticket) :
    List Bearing → List Bearing → List Event → KeyQueue Ticket → Prop where
  | rest {events q'} (silent : ∀ event ∈ events, event.key? = none) (same : q'.lines = q.lines) :
      Shift s q [] [] events q'
  | push {i : Nat} {ticket q'} (found : s.calls[i]? = some (Stage.pushing ticket))
      (pushed : q.push ticket.job.key ticket = .ok q') :
      Shift s q [] [] [.admitted ticket.serial ticket.job.key] q'
  | handOut {key ticket q'} (taken : q.tryActivate key = (some ticket, q')) :
      Shift s q [] [.fresh ticket] [] q'
  | begin (ticket) :
      Shift s q [.fresh ticket] [.underway ticket (Drive.begin ticket.job)] [] q
  | drive (ticket) {drive : Drive} (going : drive.resolution? = none) :
      Shift s q [.underway ticket drive]
        [.underway ticket (drive.step s.policy s.now s.completions).drive]
        ((drive.step s.policy s.now s.completions).made.map
          (.called ticket.serial ticket.job.key)) q
  | finish (ticket) {drive returned worker ending resolution lines}
      (ended : drive.resolution? = some returned)
      (outcome : afterDrive worker drive.job returned = (ending, resolution, lines)) :
      Shift s q [.underway ticket drive] [.settled ⟨ticket.serial, ticket.job.key, resolution⟩]
        [.driven ticket.serial ticket.job.key ending] q
  | handOver {done next q'} (released : q.release done.key = .ok (some next, q')) :
      Shift s q [.settled done] [.fresh next] [] q'
  | closeLine {done q'} (marked : 0 < q.mark done.key)
      (released : q.release done.key = .ok (none, q')) :
      Shift s q [.settled done] [] [] q'
  | refuse (next) (closed : s.channel.closed = true) :
      Shift s q [.fresh next] [] [.discarded next.serial next.job.key] q
  | discard {i : Nat} {finishing} (found : s.calls[i]? = some (Stage.discarding finishing)) :
      Shift s q [] [] (q.allWaiting.map fun (key, ticket) => .discarded ticket.serial key)
        q.discardWaiting.2

theorem Exchange.none (same : t.bearings.Perm s.bearings) : Exchange s t [] [] :=
  ⟨s.bearings, .refl _, same⟩

/-- The bearings besides those of one worker. -/
def besides (s : Coordinator) (i : Nat) : List Bearing :=
  (s.workers.eraseIdx i).flatMap Worker.bearing ++ s.channel.held.flatMap Signal.bearing

theorem bearings_of_worker {i : Nat} {old : Worker} (found : s.workers[i]? = some old) :
    s.bearings.Perm (old.bearing ++ s.besides i) := by
  rw [bearings, besides, ← List.append_assoc]
  exact (perm_flatMap Worker.bearing found).append_right _

theorem bearings_setWorker {i : Nat} {old : Worker} (found : s.workers[i]? = some old)
    (workers : t.workers = s.workers) (new : Worker) :
    (t.setWorker i new).bearings.Perm (new.bearing ++ t.besides i) := by
  rw [bearings, besides, ← List.append_assoc]
  exact (perm_flatMap_set Worker.bearing (workers ▸ found) new).append_right _

theorem exchange_setWorker {i : Nat} {old : Worker} (found : s.workers[i]? = some old)
    (workers : t.workers = s.workers) (channel : t.channel = s.channel) (new : Worker) :
    Exchange s (t.setWorker i new) old.bearing new.bearing := by
  have same : t.besides i = s.besides i := by rw [besides, besides, workers, channel]
  exact ⟨s.besides i, bearings_of_worker found, same ▸ bearings_setWorker found workers new⟩

theorem silent_countResolved (s : Coordinator) (serial : Nat) (adjustment : Monitor.Adjustment) :
    ∃ events, (s.countResolved serial adjustment).history.toList = s.history.toList ++ events ∧
      ∀ event ∈ events, event.key? = none := by
  refine ⟨if adjustment = .lower then [.counted serial] else [], ?_, ?_⟩
  · simp [countResolved, note, adjust]
  · intro event member
    split at member
    · rw [List.mem_singleton.mp member]
      rfl
    · cases member

theorem bearing_afterShedding (next : Ticket) (done : Driven) :
    (afterShedding next done).bearing = [] := by
  unfold afterShedding
  split <;> rfl

theorem shift_of_workerStep {i : Nat} {old new : Worker} (found : s.workers[i]? = some old)
    (step : WorkerStep s q old new t q') :
    ∃ gone come events, Shift s q gone come events q' ∧ Exchange s (t.setWorker i new) gone come ∧
      t.history.toList = s.history.toList ++ events := by
  have workers := workers_of_workerStep step
  have before := bearings_of_worker found
  have after := bearings_setWorker found workers new
  cases step with
  | @takeWake key rest front =>
      have same : s.besides i = besides { s with channel := ⟨rest, s.channel.closed⟩ } i := by
        rw [besides, besides, front]
        rfl
      exact ⟨[], [], [], .rest (by simp) rfl, ⟨_, before, same ▸ after⟩, by simp⟩
  | @takeResume ticket rest front =>
      refine ⟨[], [], [], .rest (by simp) rfl, .none (after.trans ?_), by simp⟩
      refine List.Perm.trans ?_ before.symm
      simp only [besides, front, List.flatMap_cons, Worker.bearing, Signal.bearing,
        List.cons_append, List.nil_append]
      exact List.perm_middle.symm
  | leave | ignoreWake =>
      exact ⟨[], [], [], .rest (by simp) rfl, exchange_setWorker found rfl rfl _, by simp⟩
  | activate taken =>
      exact ⟨_, _, [], .handOut taken, exchange_setWorker found rfl rfl _, by simp⟩
  | beginDrive ticket =>
      exact ⟨_, _, [], .begin ticket, exchange_setWorker found rfl rfl _, by simp⟩
  | @drive ticket _ _ log going step =>
      subst step
      exact ⟨_, _, _, .drive ticket going, exchange_setWorker found rfl rfl _, by simp [note]⟩
  | @endDrive worker ticket _ _ _ _ _ log ended outcome =>
      exact ⟨_, _, _, .finish ticket ended outcome, exchange_setWorker found rfl rfl _,
        by simp [note]⟩
  | handOver released =>
      exact ⟨_, _, [], .handOver released, exchange_setWorker found rfl rfl _, by simp⟩
  | closeLine marked released =>
      exact ⟨_, _, [], .closeLine marked released, exchange_setWorker found rfl rfl _, by simp⟩
  | sendOn next done opened =>
      refine ⟨[], [], [], .rest (by simp) rfl, .none (after.trans ?_), by simp⟩
      refine List.Perm.trans ?_ before.symm
      simp only [besides, List.flatMap_append, ← List.append_assoc]
      exact List.perm_append_comm
  | refuse next done log closed =>
      exact ⟨_, _, _, .refuse next closed, exchange_setWorker found rfl rfl _, by simp [note]⟩
  | shed next adjustment left done =>
      obtain ⟨events, noted, silent⟩ := silent_countResolved s next.serial adjustment
      exact ⟨[], [], events, .rest silent rfl, exchange_setWorker found rfl rfl _, noted⟩
  | drop next done =>
      have same := exchange_setWorker found rfl rfl (afterShedding next done)
      rw [bearing_afterShedding] at same
      exact ⟨[], [], [], .rest (by simp) rfl, same, by simp⟩
  | count done adjustment left =>
      obtain ⟨events, noted, silent⟩ := silent_countResolved s done.serial adjustment
      exact ⟨[], [], events, .rest silent rfl, exchange_setWorker found rfl rfl _, noted⟩
  | finish done =>
      exact ⟨[], [], [], .rest (by simp) rfl, exchange_setWorker found rfl rfl _, by simp⟩

theorem bearings_of_callStep {old new : Stage} (step : CallStep s q old new t q') :
    t.bearings = s.bearings := by
  cases step with
  | wake => simp [bearings, Signal.bearing]
  | _ => rfl

theorem shift_of_callStep {i : Nat} {old new : Stage} (found : s.calls[i]? = some old)
    (step : CallStep s q old new t q') :
    ∃ events, Shift s q [] [] events q' ∧ t.history.toList = s.history.toList ++ events := by
  cases step with
  | push pushed => exact ⟨_, .push found pushed, by simp [note]⟩
  | discard => exact ⟨_, .discard found, by simp [note]⟩
  | count ticket adjustment =>
      obtain ⟨events, noted, silent⟩ := silent_countResolved s ticket.serial adjustment
      exact ⟨events, .rest silent rfl, noted⟩
  | closeQueue => exact ⟨[], .rest (by simp) rfl, by simp⟩
  | _ => exact ⟨[], .rest (by simp) rfl, by simp [adjust]⟩

theorem Transition.shift (move : Transition s q m t q') :
    ∃ gone come events, Shift s q gone come events q' ∧ Exchange s t gone come ∧
      t.history.toList = s.history.toList ++ events := by
  cases move with
  | worker found step => exact shift_of_workerStep found step
  | @call i old new t q' found step =>
      obtain ⟨events, shift, noted⟩ := shift_of_callStep found step
      have same : (t.setCall i new).bearings = s.bearings := (bearings_of_callStep step : _)
      exact ⟨[], [], events, shift, .none (.of_eq same), noted⟩
  | enter | exit | resolve | elapse | abandon =>
      exact ⟨[], [], [], .rest (by simp) rfl, .none (.refl _), by simp⟩

/-- The jobs of the key that are outside the queue and not released. There is one at most. -/
def bearingsOn (s : Coordinator) (key : String) : List Bearing := s.bearings.filter (·.key = key)

theorem length_bearingsOn (s : Coordinator) (key : String) :
    (s.bearingsOn key).length = s.holders key := by
  have workers : ∀ worker : Worker,
      (worker.bearing.filter (·.key = key)).length = worker.holds key := by
    intro worker
    cases worker with
    | holding ticket | driving ticket | resuming ticket =>
        by_cases same : ticket.job.key = key <;> simp [Worker.bearing, Worker.holds, Bearing.key, same]
    | releasing done =>
        by_cases same : done.key = key <;> simp [Worker.bearing, Worker.holds, Bearing.key, same]
    | _ => rfl
  have signals : ∀ signal : Signal,
      (signal.bearing.filter (·.key = key)).length = signal.holds key := by
    intro signal
    cases signal with
    | wake => rfl
    | resume ticket =>
        by_cases same : ticket.job.key = key <;> simp [Signal.bearing, Signal.holds, Bearing.key, same]
  rw [bearingsOn, bearings, List.filter_append, List.length_append, List.filter_flatMap,
    List.filter_flatMap, ← tally_one, ← tally_one, tally_flatMap, tally_flatMap, holders]
  simp only [tally_one, workers, signals]

theorem Custody.length_bearingsOn (custody : Custody s q) (key : String) :
    (s.bearingsOn key).length ≤ 1 := by
  rw [Coordinator.length_bearingsOn]
  exact Nat.le_trans (custody.exclusive key) (q.mark_le_one key)

theorem eq_of_perm_of_length {α : Type} {left right : List α} (same : left.Perm right)
    (short : left.length ≤ 1) : left = right := by
  match left, short with
  | [], _ => exact same.nil_eq
  | [x], _ => exact same.singleton_eq

theorem Exchange.on {gone come : List Bearing} (exchange : Exchange s t gone come)
    (before : Custody s q) (after : Custody t q') (key : String)
    (touches : gone.filter (·.key = key) ≠ [] ∨ come.filter (·.key = key) ≠ []) :
    s.bearingsOn key = gone.filter (·.key = key) ∧ t.bearingsOn key = come.filter (·.key = key) := by
  obtain ⟨kept, left, right⟩ := exchange
  have short := before.length_bearingsOn key
  have short' := after.length_bearingsOn key
  have left := left.filter (·.key = key)
  have right := right.filter (·.key = key)
  rw [List.filter_append] at left right
  have none_kept : kept.filter (·.key = key) = [] := by
    rw [bearingsOn, left.length_eq, List.length_append] at short
    rw [bearingsOn, right.length_eq, List.length_append] at short'
    rw [← List.length_eq_zero_iff]
    rcases touches with some | some <;> have := List.length_pos_iff.mpr some <;> omega
  rw [none_kept, List.append_nil] at left right
  exact ⟨eq_of_perm_of_length left short, eq_of_perm_of_length right short'⟩

theorem Exchange.off {gone come : List Bearing} (exchange : Exchange s t gone come)
    (before : Custody s q) (gone_off : gone.filter (·.key = key) = [])
    (come_off : come.filter (·.key = key) = []) : t.bearingsOn key = s.bearingsOn key := by
  obtain ⟨kept, left, right⟩ := exchange
  have left := left.filter (·.key = key)
  have right := right.filter (·.key = key)
  rw [List.filter_append, gone_off, List.nil_append] at left
  rw [List.filter_append, come_off, List.nil_append] at right
  exact (eq_of_perm_of_length (left.trans right.symm) (before.length_bearingsOn key)).symm

theorem Exchange.serials {old new : Bearing} (exchange : Exchange s t [old] [new])
    (before : Custody s q) (after : Custody t q') (filed : new.key = old.key)
    (same : new.serial = old.serial) :
    (t.bearingsOn key).map Bearing.serial = (s.bearingsOn key).map Bearing.serial := by
  by_cases touched : old.key = key
  · obtain ⟨left, right⟩ := exchange.on before after key (.inl (by simp [touched]))
    simp [left, right, touched, filed, same]
  · rw [exchange.off before] <;> simp [touched, filed]

theorem Exchange.mem_bearingsOn {gone come : List Bearing} (exchange : Exchange s t gone come)
    {bearing : Bearing} (present : bearing ∈ t.bearingsOn key) :
    bearing ∈ come ∨ bearing ∈ s.bearingsOn key := by
  obtain ⟨kept, before, after⟩ := exchange
  obtain ⟨present, filed⟩ := List.mem_filter.mp present
  rcases List.mem_append.mp (after.mem_iff.mp present) with now | earlier
  · exact .inl now
  · exact .inr (List.mem_filter.mpr
      ⟨before.mem_iff.mpr (List.mem_append_right _ earlier), filed⟩)

end Coordinator

end KeyedJobs
