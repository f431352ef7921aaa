import KeyedJobs.Proofs.Coordinator.Custody

/-! # Where the jobs are

Every pushed job that has not been counted as resolved is in one place: it waits in the queue, it is
on its way in a signal, a worker has taken it, or a call that shuts down has taken it out. Pushing a
job adds it to the places and counting it takes it away; every other step at most moves it.
-/

namespace KeyedJobs

/-- The job of which these adjustments are left, as long as it has not been taken off the gauge. -/
def uncounted (serial : Nat) (left : List Monitor.Adjustment) : List Nat :=
  List.replicate (left.count .lower) serial

/-- The jobs that the worker has taken and not yet counted. -/
def Worker.taken : Worker → List Nat
  | .holding ticket | .driving ticket _ => [ticket.serial]
  | .releasing done => [done.serial]
  | .resuming next done => [next.serial, done.serial]
  | .shedding next left done => uncounted next.serial left ++ [done.serial]
  | .counting done left => uncounted done.serial left
  | .crashed (some done) => [done.serial]
  | .receiving | .activating _ | .ended | .crashed none => []

/-- The job that the signal carries. -/
def Signal.carried : Signal → List Nat
  | .resume ticket => [ticket.serial]
  | .wake _ => []

/-- The jobs that the call has taken out of the queue and not yet counted. -/
def Stage.dropped : Stage → List Nat
  | .dropping tickets _ => tickets.map (·.serial)
  | .discounting ticket left rest _ => uncounted ticket.serial left ++ rest.map (·.serial)
  | _ => []

/-- The job that the call has raised the gauge for and not pushed. -/
def Stage.offered : Stage → List Nat
  | .pushing ticket | .refusing ticket => [ticket.serial]
  | _ => []

/-- The job that the call has not raised the gauge for. -/
def Stage.checked : Stage → List Nat
  | .checking ticket => [ticket.serial]
  | _ => []

def Event.admits : Event → List Nat
  | .admitted serial _ => [serial]
  | _ => []

def Event.counts : Event → List Nat
  | .counted serial => [serial]
  | _ => []

/-- The jobs that wait. -/
def KeyQueue.serials (q : KeyQueue Ticket) : List Nat :=
  q.allWaiting.map (·.2.serial)

namespace Coordinator

variable {config : Config} {s t : Coordinator} {q q' : KeyQueue Ticket} {m : Move}

def offered (s : Coordinator) : List Nat := s.calls.flatMap Stage.offered

def checked (s : Coordinator) : List Nat := s.calls.flatMap Stage.checked

def resumed (s : Coordinator) : List Nat := s.channel.held.flatMap Signal.carried

def taken (s : Coordinator) : List Nat := s.workers.flatMap Worker.taken

def dropped (s : Coordinator) : List Nat := s.calls.flatMap Stage.dropped

/-- The jobs that have been pushed and not been counted. -/
def placed (s : Coordinator) (q : KeyQueue Ticket) : List Nat :=
  q.serials ++ s.resumed ++ s.taken ++ s.dropped

/-- The jobs that were admitted, in order. -/
def admissions (s : Coordinator) : List Nat := s.history.toList.flatMap Event.admits

/-- The jobs that were counted as resolved, in order. -/
def counts (s : Coordinator) : List Nat := s.history.toList.flatMap Event.counts

@[simp] theorem admissions_note (s : Coordinator) (events : List Event) :
    (s.note events).admissions = s.admissions ++ events.flatMap Event.admits := by
  simp [admissions, note]

@[simp] theorem counts_note (s : Coordinator) (events : List Event) :
    (s.note events).counts = s.counts ++ events.flatMap Event.counts := by
  simp [counts, note]

theorem counts_called (serial : Nat) (key : String) (made : List JobCall) :
    (made.map (Event.called serial key)).flatMap Event.counts = [] := by
  simp [List.flatMap_map, Event.counts]

theorem admits_called (serial : Nat) (key : String) (made : List JobCall) :
    (made.map (Event.called serial key)).flatMap Event.admits = [] := by
  simp [List.flatMap_map, Event.admits]

theorem counts_discarded (entries : List (String × Ticket)) :
    (entries.map fun (key, ticket) => Event.discarded ticket.serial key).flatMap Event.counts =
      [] := by
  simp [List.flatMap_map, Event.counts]

theorem admits_discarded (entries : List (String × Ticket)) :
    (entries.map fun (key, ticket) => Event.discarded ticket.serial key).flatMap Event.admits =
      [] := by
  simp [List.flatMap_map, Event.admits]

theorem admissions_countResolved (s : Coordinator) (serial : Nat)
    (adjustment : Monitor.Adjustment) :
    (s.countResolved serial adjustment).admissions = s.admissions := by
  unfold countResolved
  rw [admissions_note]
  split <;> simp [Event.admits, admissions, adjust]

theorem resumed_countResolved (s : Coordinator) (serial : Nat) (adjustment : Monitor.Adjustment) :
    (s.countResolved serial adjustment).resumed = s.resumed := rfl

theorem count_countResolved (s : Coordinator) (serial : Nat) (adjustment : Monitor.Adjustment)
    (left : List Monitor.Adjustment) (n : Nat) :
    (s.countResolved serial adjustment).counts.count n + (uncounted serial left).count n =
      s.counts.count n + (uncounted serial (adjustment :: left)).count n := by
  unfold countResolved
  rw [counts_note]
  by_cases lowers : adjustment = .lower
  · subst lowers
    have counted : ([Event.counted serial] : List Event).flatMap Event.counts = [serial] := rfl
    rw [if_pos rfl, counted, uncounted, uncounted, List.count_cons_self, List.replicate_succ,
      List.count_append, List.count_cons, List.count_cons, List.count_nil]
    simp only [counts, adjust]
    omega
  · rw [if_neg lowers, uncounted, uncounted, List.count_cons_of_ne lowers, List.flatMap_nil,
      List.append_nil]
    rfl

theorem serials_tryActivate {key : String} {ticket : Ticket}
    (taken : q.tryActivate key = (some ticket, q')) :
    q.serials.Perm (ticket.serial :: q'.serials) :=
  (KeyQueue.allWaiting_tryActivate taken).map _

theorem serials_release_some {key : String} {next : Ticket}
    (released : q.release key = .ok (some next, q')) :
    q.serials.Perm (next.serial :: q'.serials) :=
  (KeyQueue.allWaiting_release_some released).map _

theorem serials_push {key : String} {ticket : Ticket} (pushed : q.push key ticket = .ok q') :
    q'.serials.Perm (ticket.serial :: q.serials) :=
  (KeyQueue.allWaiting_push pushed).map _

theorem serials_release_none (custody : Custody s q) {key : String}
    (released : q.release key = .ok (none, q')) : q'.serials = q.serials := by
  unfold KeyQueue.serials
  rw [custody.formed.allWaiting_release_none released]

theorem count_lower_finished (r : Resolution) :
    (Monitor.Change.finished r).adjustments.count .lower = 1 := by
  simp only [Monitor.Change.adjustments, Monitor.Adjustment.ofEnding]
  split <;> split <;> rfl

theorem taken_countingOf (done : Driven) : (countingOf done).taken = [done.serial] := by
  simp only [countingOf, Worker.taken, uncounted, count_lower_finished]
  rfl

theorem taken_afterShedding (next : Ticket) (done : Driven) :
    (afterShedding next done).taken = [done.serial] := by
  unfold afterShedding
  split
  · rfl
  · exact taken_countingOf done

theorem placed_of_workerStep (custody : Custody s q) {old new : Worker}
    (step : WorkerStep s q old new t q') (n : Nat) :
    t.counts.count n + q'.serials.count n + t.resumed.count n + new.taken.count n =
      s.counts.count n + q.serials.count n + s.resumed.count n + old.taken.count n := by
  cases step with
  | takeWake front =>
      simp only [counts, resumed, front, List.flatMap_cons, Signal.carried, Worker.taken,
        List.nil_append]
  | takeResume front =>
      simp only [counts, resumed, front, List.flatMap_cons, Signal.carried, Worker.taken,
        List.count_append, List.count_nil]
      omega
  | activate taken =>
      have moved := (serials_tryActivate taken).count_eq n
      simp only [counts, resumed, Worker.taken, moved, List.count_cons, List.count_nil]
      omega
  | handOver released =>
      have moved := (serials_release_some released).count_eq n
      simp only [counts, resumed, Worker.taken, moved, List.count_cons, List.count_nil]
      omega
  | closeLine _ released =>
      rw [taken_countingOf, serials_release_none custody released]
      simp only [counts, resumed, Worker.taken]
  | sendOn next done =>
      rw [taken_countingOf]
      simp only [counts, resumed, Worker.taken, List.flatMap_append, List.flatMap_cons,
        List.flatMap_nil, Signal.carried, List.count_append, List.count_cons, List.count_nil]
      omega
  | refuse next done log closed =>
      have left : Monitor.Change.discarded.adjustments.count .lower = 1 := rfl
      rw [counts_note]
      simp only [counts, resumed, note, Worker.taken, uncounted, left, List.flatMap_cons,
        List.flatMap_nil, Event.counts, List.append_nil]
      rfl
  | shed next adjustment left done =>
      have counted := count_countResolved s next.serial adjustment left n
      rw [resumed_countResolved]
      simp only [Worker.taken, List.count_append]
      omega
  | drop next done =>
      rw [taken_afterShedding]
      rfl
  | count done adjustment left =>
      have counted := count_countResolved s done.serial adjustment left n
      rw [resumed_countResolved]
      simp only [Worker.taken]
      omega
  | finish done => rfl
  | drive log =>
      rw [counts_note, counts_called, List.append_nil]
      rfl
  | endDrive log =>
      rw [counts_note]
      simp only [List.flatMap_cons, List.flatMap_nil, Event.counts, List.append_nil]
      rfl
  | leave | ignoreWake | beginDrive => rfl

theorem admissions_of_workerStep {old new : Worker} (step : WorkerStep s q old new t q') :
    t.admissions = s.admissions := by
  cases step with
  | drive log => rw [admissions_note, admits_called, List.append_nil]; rfl
  | endDrive | refuse => rw [admissions_note]; exact List.append_nil _
  | shed | count => exact admissions_countResolved ..
  | _ => rfl

theorem placed_of_callStep {old new : Stage} (step : CallStep s q old new t q') (n : Nat) :
    t.counts.count n + q'.serials.count n + t.resumed.count n + new.dropped.count n +
        s.admissions.count n =
      s.counts.count n + q.serials.count n + s.resumed.count n + old.dropped.count n +
        t.admissions.count n := by
  cases step with
  | @push ticket _ pushed =>
      have moved := (serials_push pushed).count_eq n
      rw [counts_note, admissions_note]
      simp only [counts, resumed, admissions, note, Stage.dropped, moved, List.flatMap_cons,
        List.flatMap_nil, Event.counts, Event.admits, List.append_nil, List.count_append,
        List.count_cons, List.count_nil]
      omega
  | discard finishing log =>
      have emptied : q.discardWaiting.2.serials = [] := by
        rw [KeyQueue.serials, KeyQueue.allWaiting_discardWaiting, List.map_nil]
      have dropped : (q.allWaiting.map (·.2)).map (·.serial) = q.serials := by
        rw [List.map_map]
        rfl
      rw [counts_note, admissions_note, counts_discarded, admits_discarded, emptied]
      simp only [counts, resumed, admissions, note, Stage.dropped, dropped, List.append_nil,
        List.count_nil]
      omega
  | discount ticket rest finishing log =>
      have left : Monitor.Change.discarded.adjustments.count .lower = 1 := rfl
      simp only [Stage.dropped, uncounted, left, List.map_cons]
      rfl
  | count ticket adjustment left rest finishing =>
      have counted := count_countResolved s ticket.serial adjustment left n
      rw [admissions_countResolved, resumed_countResolved]
      simp only [Stage.dropped, List.count_append]
      omega
  | wake key opened =>
      simp only [counts, resumed, admissions, Stage.dropped, List.flatMap_append, List.flatMap_cons,
        List.flatMap_nil, Signal.carried, List.append_nil]
  | passMark finishing => cases finishing <;> rfl
  | allDropped onward => cases onward using onward_cases <;> rfl
  | closeQueue finishing => cases s.shutdownPolicy <;> cases finishing <;> rfl
  | _ => rfl

theorem fresh_of_callStep {old new : Stage} (step : CallStep s q old new t q') (n : Nat) :
    new.checked.count n + new.offered.count n + t.admissions.count n ≤
      old.checked.count n + old.offered.count n + s.admissions.count n := by
  cases step with
  | refuseKey | reject =>
      simp only [Stage.checked, Stage.offered, admissions, adjust, List.count_nil]
      omega
  | raise =>
      simp only [Stage.checked, Stage.offered, admissions, adjust, List.count_nil]
      omega
  | push =>
      rw [admissions_note]
      simp only [Stage.checked, Stage.offered, admissions, List.flatMap_cons, List.flatMap_nil,
        Event.admits, List.append_nil, List.count_append, List.count_nil]
      omega
  | discard =>
      rw [admissions_note, admits_discarded, List.append_nil]
      exact Nat.le_refl _
  | count =>
      rw [admissions_countResolved]
      exact Nat.le_refl _
  | passMark finishing => cases finishing <;> exact Nat.le_refl _
  | allDropped onward => cases onward using onward_cases <;> exact Nat.le_refl _
  | closeQueue finishing => cases s.shutdownPolicy <;> cases finishing <;> exact Nat.le_refl _
  | _ => exact Nat.le_refl _

/-- What was admitted has been counted or is in its place, and no two jobs have one number. -/
structure Placed (s : Coordinator) (q : KeyQueue Ticket) : Prop where
  kept : ∀ n, s.counts.count n + (s.placed q).count n = s.admissions.count n
  fresh : ∀ n, s.checked.count n + s.offered.count n + s.admissions.count n ≤
    if n < s.brought then 1 else 0

theorem count_set {α : Type} (f : α → List Nat) {list : List α} {i : Nat} {old : α}
    (found : list[i]? = some old) (new : α) (n : Nat) :
    ((list.set i new).flatMap f).count n + (f old).count n =
      (list.flatMap f).count n + (f new).count n := by
  have placed := tally_set (fun x => (f x).count n) found new
  simpa only [← tally_if_eq, tally_flatMap] using placed

theorem count_eraseIdx {α : Type} (f : α → List Nat) {list : List α} {i : Nat} {old : α}
    (found : list[i]? = some old) (n : Nat) :
    ((list.eraseIdx i).flatMap f).count n + (f old).count n = (list.flatMap f).count n := by
  have erased := tally_eraseIdx (fun x => (f x).count n) found
  simpa only [← tally_if_eq, tally_flatMap] using erased

theorem count_placed (s : Coordinator) (q : KeyQueue Ticket) (n : Nat) :
    (s.placed q).count n = q.serials.count n + s.resumed.count n + s.taken.count n +
      s.dropped.count n := by
  simp only [placed, List.count_append]

theorem dropped_firstStage (s : Coordinator) (request : Request) :
    (s.firstStage request).dropped = [] :=
  s.firstStage_cases request (motive := fun stage => stage.dropped = []) (fun _ => rfl)
    (fun _ => rfl) (fun _ => rfl) fun _ => rfl

theorem offered_firstStage (s : Coordinator) (request : Request) :
    (s.firstStage request).offered = [] :=
  s.firstStage_cases request (motive := fun stage => stage.offered = []) (fun _ => rfl)
    (fun _ => rfl) (fun _ => rfl) fun _ => rfl

theorem checked_firstStage (s : Coordinator) (request : Request) :
    (s.firstStage request).checked = List.replicate request.brings s.brought := by
  cases request with
  | waitUntilIdle timeout => simp only [firstStage]; split <;> rfl
  | _ => rfl

theorem brought_of_workerStep {old new : Worker} (step : WorkerStep s q old new t q') :
    t.brought = s.brought := by
  cases step <;> rfl

theorem brought_of_callStep {old new : Stage} (step : CallStep s q old new t q') :
    t.brought = s.brought := by
  cases step <;> rfl

theorem Placed.of_worker (placed : Placed s q) (custody : Custody s q) {i : Nat} {old new : Worker}
    (found : s.workers[i]? = some old) (step : WorkerStep s q old new t q') :
    Placed (t.setWorker i new) q' := by
  have workers := workers_of_workerStep step
  have calls := calls_of_workerStep step
  constructor
  · intro n
    have kept := placed.kept n
    have moved := placed_of_workerStep custody step n
    have admitted := congrArg (List.count n) (admissions_of_workerStep step)
    have set := count_set Worker.taken found new n
    simp only [count_placed, taken, dropped] at kept ⊢
    simp only [setWorker, counts, resumed, admissions, workers, calls] at *
    omega
  · intro n
    have fresh := placed.fresh n
    have admitted := congrArg (List.count n) (admissions_of_workerStep step)
    simp only [checked, offered] at fresh ⊢
    simp only [setWorker, admissions, calls, brought_of_workerStep step] at *
    omega

theorem Placed.of_call (placed : Placed s q) {i : Nat} {old new : Stage}
    (found : s.calls[i]? = some old) (step : CallStep s q old new t q') :
    Placed (t.setCall i new) q' := by
  have workers := workers_of_callStep step
  have calls := calls_of_callStep step
  constructor
  · intro n
    have kept := placed.kept n
    have moved := placed_of_callStep step n
    have set := count_set Stage.dropped found new n
    simp only [count_placed, taken, dropped] at kept ⊢
    simp only [setCall, counts, resumed, admissions, workers, calls] at *
    omega
  · intro n
    have fresh := placed.fresh n
    have moved := fresh_of_callStep step n
    have set := count_set Stage.checked found new n
    have set' := count_set Stage.offered found new n
    simp only [checked, offered] at fresh ⊢
    simp only [setCall, admissions, calls, brought_of_callStep step] at *
    omega

theorem Placed.of_transition (placed : Placed s q) (custody : Custody s q)
    (move : Transition s q m t q') : Placed t q' := by
  cases move with
  | worker found step => exact placed.of_worker custody found step
  | call found step => exact placed.of_call found step
  | resolve | elapse | abandon => exact ⟨placed.kept, placed.fresh⟩
  | enter request =>
      constructor
      · intro n
        have kept := placed.kept n
        simp only [count_placed, dropped, List.flatMap_append, List.flatMap_cons, List.flatMap_nil,
          dropped_firstStage, List.append_nil] at kept ⊢
        exact kept
      · intro n
        have fresh := placed.fresh n
        simp only [checked, offered, List.flatMap_append, List.flatMap_cons, List.flatMap_nil,
          offered_firstStage, checked_firstStage, List.append_nil, List.count_append] at fresh ⊢
        have bound : (List.replicate request.brings s.brought).count n ≤
            if s.brought = n then request.brings else 0 := by
          rw [List.count_replicate]
          split <;> split <;> simp_all
        have brings : request.brings ≤ 1 := by cases request <;> simp [Request.brings]
        simp only [admissions] at fresh ⊢
        split at fresh <;> split at bound <;> split <;> omega
  | exit found =>
      constructor
      · intro n
        have kept := placed.kept n
        have erased := count_eraseIdx Stage.dropped found n
        simp only [count_placed, dropped, Stage.dropped, List.count_nil] at kept erased ⊢
        simp only [counts, resumed, admissions, taken] at *
        omega
      · intro n
        have fresh := placed.fresh n
        have erased := count_eraseIdx Stage.checked found n
        have erased' := count_eraseIdx Stage.offered found n
        simp only [checked, offered, Stage.checked, Stage.offered, List.count_nil] at *
        simp only [admissions] at *
        omega

theorem Placed.of_fresh (config : Config) : Placed (Coordinator.fresh config) .empty := by
  have none_taken : (Coordinator.fresh config).taken = [] := by
    rw [taken, List.flatMap_eq_nil_iff]
    intro worker member
    rw [List.eq_of_mem_replicate member]
    rfl
  refine ⟨?_, fun n => Nat.zero_le _⟩
  intro n
  rw [count_placed, none_taken]
  rfl

theorem Placed.perm (placed : Placed s q) : (s.counts ++ s.placed q).Perm s.admissions := by
  apply List.perm_iff_count.mpr
  intro n
  rw [List.count_append]
  exact placed.kept n

theorem Placed.length (placed : Placed s q) :
    s.counts.length + (s.placed q).length = s.admissions.length := by
  rw [← List.length_append]
  exact placed.perm.length_eq

theorem length_placed (s : Coordinator) (q : KeyQueue Ticket) :
    (s.placed q).length = q.allWaiting.length + s.resumed.length + s.taken.length +
      s.dropped.length := by
  simp only [placed, KeyQueue.serials, List.length_append, List.length_map]

end Coordinator

end KeyedJobs
