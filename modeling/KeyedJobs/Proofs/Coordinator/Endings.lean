import KeyedJobs.Proofs.Coordinator.Conservation
import KeyedJobs.Proofs.Coordinator.Shifts

/-! # How jobs end

An admitted job ends once: its drive is over, or it is dropped before it was driven. Until then it
waits, or it has been handed out and is fresh or underway; afterwards it is counted, or some thread
is about to count it.
-/

namespace KeyedJobs

/-- The job that ends. -/
def Event.ends : Event → List Nat
  | .driven serial _ _ | .discarded serial _ => [serial]
  | _ => []

/-- The job, unless it has ended. -/
def Bearing.unended : Bearing → List Nat
  | .fresh ticket | .underway ticket _ => [ticket.serial]
  | .settled _ => []

/-- The job, if it is being driven. -/
def Bearing.driven : Bearing → List Nat
  | .underway ticket _ => [ticket.serial]
  | _ => []

/-- The jobs that have ended and that the worker has not counted. -/
def Worker.closing : Worker → List Nat
  | .releasing done | .resuming _ done => [done.serial]
  | .shedding next left done => uncounted next.serial left ++ [done.serial]
  | .counting done left => uncounted done.serial left
  | .crashed (some done) => [done.serial]
  | _ => []

namespace Coordinator

variable {config : Config} {s t : Coordinator} {q q' : KeyQueue Ticket} {m : Move}

/-- The jobs that have ended, in order. -/
def endings (s : Coordinator) : List Nat := s.history.toList.flatMap Event.ends

/-- The jobs that have been handed out and have not ended. -/
def unended (s : Coordinator) : List Nat := s.bearings.flatMap Bearing.unended

/-- The jobs that are being driven. -/
def underway (s : Coordinator) : List Nat := s.bearings.flatMap Bearing.driven

theorem endings_append {events : List Event}
    (noted : t.history.toList = s.history.toList ++ events) :
    t.endings = s.endings ++ events.flatMap Event.ends := by
  rw [endings, noted, List.flatMap_append]
  rfl

theorem ends_called (serial : Nat) (key : String) (made : List JobCall) :
    (made.map (Event.called serial key)).flatMap Event.ends = [] := by
  simp [List.flatMap_map, Event.ends]

theorem ends_discarded (q : KeyQueue Ticket) :
    (q.allWaiting.map fun (key, ticket) => Event.discarded ticket.serial key).flatMap Event.ends =
      q.serials := by
  rw [List.flatMap_map, KeyQueue.serials, ← List.flatMap_pure_eq_map]
  rfl

theorem silent_of_key? {events : List Event} (silent : ∀ event ∈ events, event.key? = none) :
    events.flatMap Event.admits = [] ∧ events.flatMap Event.ends = [] := by
  constructor
  all_goals
    rw [List.flatMap_eq_nil_iff]
    intro event member
    have counted := silent event member
    cases event with
    | counted serial => rfl
    | _ => cases counted

theorem count_of_shift (custody : Custody s q) {gone come : List Bearing} {events : List Event}
    (shift : Shift s q gone come events q') (n : Nat) :
    (events.flatMap Event.admits).count n + q.serials.count n +
        (gone.flatMap Bearing.unended).count n =
      (events.flatMap Event.ends).count n + q'.serials.count n +
        (come.flatMap Bearing.unended).count n := by
  cases shift with
  | rest silent same =>
      obtain ⟨admits, ends⟩ := silent_of_key? silent
      rw [admits, ends, KeyQueue.serials, KeyQueue.serials, KeyQueue.allWaiting, KeyQueue.allWaiting,
        same]
  | push found pushed =>
      have moved := (serials_push pushed).count_eq n
      simp only [List.flatMap_cons, List.flatMap_nil, Event.admits, Event.ends, List.append_nil, moved,
        List.count_cons, List.count_nil]
      omega
  | handOut taken =>
      have moved := (serials_tryActivate taken).count_eq n
      simp only [List.flatMap_cons, List.flatMap_nil, Bearing.unended, List.append_nil, moved,
        List.count_cons, List.count_nil]
      omega
  | begin ticket => rfl
  | drive ticket => rw [admits_called, ends_called]; rfl
  | finish ticket =>
      simp only [List.flatMap_cons, List.flatMap_nil, Event.admits, Event.ends, Bearing.unended,
        List.append_nil, List.count_nil]
      omega
  | handOver released =>
      have moved := (serials_release_some released).count_eq n
      simp only [List.flatMap_cons, List.flatMap_nil, Bearing.unended, List.append_nil, moved,
        List.count_cons, List.count_nil]
      omega
  | closeLine _ released =>
      rw [serials_release_none custody released]
      rfl
  | refuse next =>
      simp only [List.flatMap_cons, List.flatMap_nil, Event.admits, Event.ends, Bearing.unended,
        List.append_nil, List.count_nil]
      omega
  | discard =>
      have emptied : q.discardWaiting.2.serials = [] := by
        rw [KeyQueue.serials, KeyQueue.allWaiting_discardWaiting, List.map_nil]
      rw [admits_discarded, ends_discarded, emptied, List.count_nil, Nat.zero_add, Nat.add_zero]

theorem Exchange.count {gone come : List Bearing} (exchange : Exchange s t gone come)
    (f : Bearing → List Nat) (n : Nat) :
    (t.bearings.flatMap f).count n + (gone.flatMap f).count n =
      (s.bearings.flatMap f).count n + (come.flatMap f).count n := by
  obtain ⟨kept, before, after⟩ := exchange
  rw [((before.flatMap_right f).count_eq n), ((after.flatMap_right f).count_eq n)]
  simp only [List.flatMap_append, List.count_append]
  omega

/-- An admitted job waits, is handed out or has ended. -/
def Balanced (s : Coordinator) (q : KeyQueue Ticket) : Prop :=
  ∀ n, s.endings.count n + q.serials.count n + s.unended.count n = s.admissions.count n

theorem Balanced.of_transition (balanced : Balanced s q) (custody : Custody s q)
    (move : Transition s q m t q') : Balanced t q' := by
  obtain ⟨gone, come, events, shift, exchange, noted⟩ := move.shift
  intro n
  have before := balanced n
  have shifted := count_of_shift custody shift n
  have exchanged := exchange.count Bearing.unended n
  simp only [endings, admissions, unended, noted, List.flatMap_append, List.count_append] at *
  omega

theorem Balanced.of_fresh (config : Config) : Balanced (fresh config) .empty := by
  intro n
  have idle : (fresh config).unended = [] := by
    simp [unended, bearings, fresh, Channel.empty, Worker.bearing]
  rw [idle]
  rfl

theorem Placed.admitted_le_one (placed : Placed s q) (n : Nat) : s.admissions.count n ≤ 1 := by
  have fresh := placed.fresh n
  split at fresh <;> omega

theorem count_taken (worker : Worker) (n : Nat) :
    worker.taken.count n =
      (worker.bearing.flatMap Bearing.unended).count n + worker.closing.count n := by
  cases worker with
  | resuming next done =>
      simp only [Worker.taken, Worker.bearing, Worker.closing, List.flatMap_cons, List.flatMap_nil,
        Bearing.unended, List.count_append, List.count_cons, List.count_nil]
      omega
  | shedding | counting => simp [Worker.taken, Worker.bearing, Worker.closing]
  | crashed done => cases done <;> simp [Worker.taken, Worker.bearing, Worker.closing]
  | _ => simp [Worker.taken, Worker.bearing, Worker.closing, Bearing.unended]

theorem count_carried (signal : Signal) (n : Nat) :
    signal.carried.count n = (signal.bearing.flatMap Bearing.unended).count n := by
  cases signal <;> rfl

/-- The jobs that have ended and that no worker has counted. -/
def closing (s : Coordinator) : List Nat := s.workers.flatMap Worker.closing

theorem count_unended (s : Coordinator) (n : Nat) :
    s.resumed.count n + s.taken.count n = s.unended.count n + s.closing.count n := by
  have workers : s.taken.count n = (s.workers.flatMap fun worker =>
      worker.bearing.flatMap Bearing.unended).count n + s.closing.count n := by
    simp only [taken, closing, List.count_flatMap]
    induction s.workers with
    | nil => rfl
    | cons worker rest ih =>
        have here := count_taken worker n
        simp only [List.map_cons, List.sum_cons, Function.comp] at ih ⊢
        omega
  have signals : s.resumed.count n = (s.channel.held.flatMap fun signal =>
      signal.bearing.flatMap Bearing.unended).count n := by
    simp only [resumed, List.count_flatMap]
    congr 2
    funext signal
    exact count_carried signal n
  rw [workers, signals, unended, bearings, List.flatMap_append, List.count_append, List.flatMap_assoc,
    List.flatMap_assoc]
  omega

theorem Balanced.counted (balanced : Balanced s q) (placed : Placed s q) (n : Nat) :
    s.counts.count n + s.closing.count n + s.dropped.count n = s.endings.count n := by
  have kept := placed.kept n
  have located := balanced n
  have moved := count_unended s n
  rw [count_placed] at kept
  omega

end Coordinator

end KeyedJobs
