import KeyedJobs.Proofs.Coordinator.Places
import KeyedJobs.Proofs.Monitor.Adjustments

/-! # The ledger

The counters against the history of a run. Every counter agrees with what happened to the jobs, but
for what some thread has left of counting, and whoever lowers the gauge finds it raised.
-/

namespace KeyedJobs

open Monitor (Adjustment Closing)

/-- What the worker has left of counting a job. -/
def Worker.left : Worker → List Adjustment
  | .shedding _ left _ | .counting _ left => left
  | _ => []

/-- What the call has left of counting a job. -/
def Stage.left : Stage → List Adjustment
  | .discounting _ left _ _ => left
  | _ => []

/-- Whether the call has pushed a job that is not counted as admitted. -/
def Stage.admits : Stage → Nat
  | .admitting _ => 1
  | _ => 0

namespace Coordinator

variable {config : Config} {s t : Coordinator} {q q' : KeyQueue Ticket} {m : Move}

/-- How much of some kind of adjustment is left of counting jobs. -/
def pending (s : Coordinator) (kind : Adjustment → Nat) : Nat :=
  tally (fun worker => tally kind worker.left) s.workers +
    tally (fun stage => tally kind stage.left) s.calls

/-- The counters agree with the history, but for what is left of counting. -/
structure Ledger (s : Coordinator) : Prop where
  gauge : s.monitor.incomplete + s.counts.length = s.offered.length + s.admissions.length
  admitted : s.monitor.admitted + tally Stage.admits s.calls = s.admissions.length
  endings : s.monitor.succeeded + s.monitor.abandoned + s.pending Adjustment.ends =
    s.counts.length + s.pending Adjustment.lowers
  discards : s.monitor.discarded + s.pending Adjustment.discards ≤
    s.monitor.abandoned + s.pending Adjustment.abandons
  closingWorkers : ∀ worker ∈ s.workers, Closing worker.left
  closingCalls : ∀ stage ∈ s.calls, Closing stage.left

theorem length_counts_countResolved (s : Coordinator) (serial : Nat) (adjustment : Adjustment) :
    (s.countResolved serial adjustment).counts.length = s.counts.length + adjustment.lowers := by
  unfold countResolved
  rw [counts_note, List.length_append]
  cases adjustment <;> rfl

theorem monitor_countResolved (s : Coordinator) (serial : Nat) (adjustment : Adjustment) :
    (s.countResolved serial adjustment).monitor = s.monitor.adjust adjustment := rfl

/-- What a step does to the counters of endings and to what a worker or a call has left of counting:
nothing, or it starts to count a job, or it makes the next adjustment. -/
inductive Accounting (s : Coordinator) : List Adjustment → List Adjustment → Coordinator → Prop where
  | none {left : List Adjustment} {t : Coordinator}
      (succeeded : t.monitor.succeeded = s.monitor.succeeded)
      (abandoned : t.monitor.abandoned = s.monitor.abandoned)
      (discarded : t.monitor.discarded = s.monitor.discarded) (counts : t.counts = s.counts) :
      Accounting s left left t
  | finished (r : Resolution) {t : Coordinator}
      (monitor : t.monitor = s.monitor) (counts : t.counts = s.counts) :
      Accounting s [] (Monitor.Change.finished r).adjustments t
  | discarded {t : Coordinator} (monitor : t.monitor = s.monitor) (counts : t.counts = s.counts) :
      Accounting s [] Monitor.Change.discarded.adjustments t
  | adjusted (serial : Nat) (adjustment : Adjustment) (left : List Adjustment) :
      Accounting s (adjustment :: left) left (s.countResolved serial adjustment)

variable {left left' : List Adjustment}

theorem Accounting.endings (step : Accounting s left left' t) :
    t.monitor.succeeded + t.monitor.abandoned + tally Adjustment.ends left' + s.counts.length +
        tally Adjustment.lowers left =
      s.monitor.succeeded + s.monitor.abandoned + tally Adjustment.ends left + t.counts.length +
        tally Adjustment.lowers left' := by
  cases step with
  | none succeeded abandoned _ counts =>
      rw [succeeded, abandoned, counts]
  | finished r monitor counts =>
      rw [monitor, counts, Monitor.ends_finished, Monitor.lowers_finished, tally_nil, tally_nil]
      omega
  | discarded monitor counts =>
      rw [monitor, counts]
      simp only [Monitor.Change.adjustments, tally_cons, tally_nil, Adjustment.ends,
        Adjustment.lowers]
      omega
  | adjusted serial adjustment =>
      have ended := s.monitor.ended_adjust adjustment
      rw [length_counts_countResolved, monitor_countResolved, tally_cons, tally_cons]
      omega

theorem Accounting.discards (step : Accounting s left left' t) :
    t.monitor.discarded + tally Adjustment.discards left' + s.monitor.abandoned +
        tally Adjustment.abandons left ≤
      s.monitor.discarded + tally Adjustment.discards left + t.monitor.abandoned +
        tally Adjustment.abandons left' := by
  cases step with
  | none succeeded abandoned discarded counts => omega
  | finished r monitor counts =>
      simp only [monitor, Monitor.discards_finished, tally_nil]
      omega
  | discarded monitor counts =>
      rw [monitor]
      simp only [Monitor.Change.adjustments, tally_cons, tally_nil, Adjustment.discards,
        Adjustment.abandons]
      omega
  | adjusted serial adjustment =>
      rw [monitor_countResolved, Monitor.abandoned_adjust, Monitor.discarded_adjust, tally_cons,
        tally_cons]
      omega

theorem Accounting.closing (step : Accounting s left left' t) (closing : Closing left) :
    Closing left' := by
  cases step with
  | none => exact closing
  | finished r => exact Monitor.closing_finished r
  | discarded => exact Monitor.closing_discarded
  | adjusted => exact closing.tail

theorem accounting_of_workerStep {old new : Worker} (step : WorkerStep s q old new t q') :
    Accounting s old.left new.left t := by
  cases step with
  | closeLine _ released => exact .finished _ rfl rfl
  | sendOn next done => exact .finished _ rfl rfl
  | refuse next done log =>
      refine .discarded rfl ?_
      rw [counts_note]
      exact List.append_nil _
  | drive log =>
      refine .none rfl rfl rfl ?_
      rw [counts_note, counts_called]
      exact List.append_nil _
  | endDrive log =>
      refine .none rfl rfl rfl ?_
      rw [counts_note]
      exact List.append_nil _
  | drop next done =>
      unfold afterShedding
      split
      · exact .none rfl rfl rfl rfl
      · exact .finished _ rfl rfl
  | shed next adjustment left done => exact .adjusted next.serial adjustment left
  | count done adjustment left => exact .adjusted done.serial adjustment left
  | _ => exact .none rfl rfl rfl rfl

theorem accounting_of_callStep {old new : Stage} (step : CallStep s q old new t q') :
    Accounting s old.left new.left t := by
  cases step with
  | push =>
      refine .none rfl rfl rfl ?_
      rw [counts_note]
      exact List.append_nil _
  | discard =>
      refine .none rfl rfl rfl ?_
      rw [counts_note, counts_discarded]
      exact List.append_nil _
  | discount => exact .discarded rfl rfl
  | count ticket adjustment left => exact .adjusted ticket.serial adjustment left
  | passMark finishing => cases finishing <;> exact .none rfl rfl rfl rfl
  | allDropped onward => cases onward using onward_cases <;> exact .none rfl rfl rfl rfl
  | closeQueue finishing =>
      cases s.shutdownPolicy <;> cases finishing <;> exact .none rfl rfl rfl rfl
  | _ => exact .none rfl rfl rfl rfl

theorem gauge_countResolved (serial : Nat) {adjustment : Adjustment}
    (closing : Closing (adjustment :: left))
    (unsaturated : adjustment = .lower → 0 < s.monitor.incomplete) :
    (s.countResolved serial adjustment).monitor.incomplete +
        (s.countResolved serial adjustment).counts.length =
      s.monitor.incomplete + s.counts.length := by
  have leaving := (closing.leaving adjustment List.mem_cons_self).1
  have lowered := Monitor.incomplete_adjust leaving unsaturated
  rw [length_counts_countResolved, monitor_countResolved]
  omega

/-- Whether the next adjustment takes a job off the gauge. -/
def Lowers (left : List Adjustment) : Prop :=
  ∃ rest, left = .lower :: rest

theorem gauge_of_workerStep {old new : Worker} (step : WorkerStep s q old new t q')
    (closing : Closing old.left) (unsaturated : Lowers old.left → 0 < s.monitor.incomplete) :
    t.monitor.incomplete + t.counts.length = s.monitor.incomplete + s.counts.length := by
  cases step with
  | drive log =>
      rw [counts_note, counts_called, List.append_nil]
      rfl
  | endDrive | refuse =>
      rw [counts_note, List.length_append]
      rfl
  | shed next adjustment left done | count done adjustment left =>
      exact gauge_countResolved _ closing fun lowers => unsaturated ⟨left, lowers ▸ rfl⟩
  | _ => rfl

theorem gauge_of_callStep {old new : Stage} (step : CallStep s q old new t q')
    (closing : Closing old.left) (unsaturated : Lowers old.left → 0 < s.monitor.incomplete)
    (refused : old.offered ≠ [] → 0 < s.monitor.incomplete) :
    t.monitor.incomplete + t.counts.length + old.offered.length + s.admissions.length =
      s.monitor.incomplete + s.counts.length + new.offered.length + t.admissions.length := by
  cases step with
  | raise =>
      simp only [adjust, Monitor.adjust, counts, admissions, Stage.offered, List.length_nil,
        List.length_cons]
      omega
  | push =>
      rw [counts_note, admissions_note, List.length_append, List.length_append]
      simp only [note, counts, admissions, Stage.offered, List.flatMap_cons, List.flatMap_nil,
        Event.counts, Event.admits, List.append_nil, List.length_nil, List.length_cons]
      omega
  | reject ticket =>
      have positive := refused (by simp [Stage.offered])
      simp only [adjust, Monitor.adjust, counts, admissions, Stage.offered, List.length_nil,
        List.length_cons]
      omega
  | discard =>
      rw [counts_note, admissions_note, counts_discarded, admits_discarded]
      simp only [List.append_nil]
      rfl
  | count ticket adjustment left =>
      have counted := gauge_countResolved ticket.serial closing fun lowers =>
        unsaturated ⟨left, lowers ▸ rfl⟩
      rw [admissions_countResolved]
      simp only [Stage.offered]
      omega
  | passMark finishing => cases finishing <;> rfl
  | allDropped onward => cases onward using onward_cases <;> rfl
  | closeQueue finishing => cases s.shutdownPolicy <;> cases finishing <;> rfl
  | _ => rfl

theorem admitted_of_workerStep {old new : Worker} (step : WorkerStep s q old new t q')
    (closing : Closing old.left) : t.monitor.admitted = s.monitor.admitted := by
  cases step with
  | shed next adjustment left done | count done adjustment left =>
      exact Monitor.admitted_adjust (closing.leaving adjustment List.mem_cons_self).2
  | _ => rfl

theorem admitted_of_callStep {old new : Stage} (step : CallStep s q old new t q')
    (closing : Closing old.left) :
    t.monitor.admitted + new.admits + s.admissions.length =
      s.monitor.admitted + old.admits + t.admissions.length := by
  cases step with
  | push =>
      rw [admissions_note, List.length_append]
      simp only [note, admissions, Stage.admits, List.flatMap_cons, List.flatMap_nil, Event.admits,
        List.append_nil, List.length_cons, List.length_nil]
      omega
  | countAdmitted key =>
      simp only [adjust, Monitor.adjust, admissions, Stage.admits]
  | discard =>
      rw [admissions_note, admits_discarded, List.append_nil]
      rfl
  | count ticket adjustment left =>
      rw [admissions_countResolved, monitor_countResolved,
        Monitor.admitted_adjust (closing.leaving adjustment List.mem_cons_self).2]
      rfl
  | passMark finishing => cases finishing <;> rfl
  | allDropped onward => cases onward using onward_cases <;> rfl
  | closeQueue finishing => cases s.shutdownPolicy <;> cases finishing <;> rfl
  | _ => rfl

theorem Ledger.incomplete (ledger : Ledger s) (placed : Placed s q) :
    s.monitor.incomplete = s.offered.length + (s.placed q).length := by
  have gauge := ledger.gauge
  have lengths := placed.length
  omega

theorem mem_taken_of_lowers {worker : Worker} (lowers : Lowers worker.left) :
    ∃ n, n ∈ worker.taken := by
  obtain ⟨rest, next⟩ := lowers
  cases worker with
  | shedding ticket left done => exact ⟨done.serial, List.mem_append_right _ List.mem_cons_self⟩
  | counting done left =>
      obtain rfl : left = .lower :: rest := next
      exact ⟨done.serial, by simp [Worker.taken, uncounted]⟩
  | _ => cases next

theorem mem_dropped_of_lowers {stage : Stage} (lowers : Lowers stage.left) :
    ∃ n, n ∈ stage.dropped := by
  obtain ⟨rest, next⟩ := lowers
  cases stage with
  | discounting ticket left others finishing =>
      obtain rfl : left = .lower :: rest := next
      exact ⟨ticket.serial, by simp [Stage.dropped, uncounted]⟩
  | _ => cases next

theorem Ledger.raised (ledger : Ledger s) (placed : Placed s q) {n : Nat}
    (known : n ∈ s.offered ++ s.placed q) : 0 < s.monitor.incomplete := by
  have shown := ledger.incomplete placed
  have positive := List.length_pos_of_mem known
  rw [List.length_append] at positive
  omega

theorem Ledger.raised_of_worker (ledger : Ledger s) (placed : Placed s q) {worker : Worker}
    (member : worker ∈ s.workers) (lowers : Lowers worker.left) : 0 < s.monitor.incomplete := by
  obtain ⟨n, inHand⟩ := mem_taken_of_lowers lowers
  have inPlace : n ∈ s.placed q := by
    simp only [Coordinator.placed, taken, List.mem_append, List.mem_flatMap]
    exact .inl (.inr ⟨worker, member, inHand⟩)
  exact ledger.raised placed (List.mem_append_right _ inPlace)

theorem Ledger.raised_of_call (ledger : Ledger s) (placed : Placed s q) {stage : Stage}
    (member : stage ∈ s.calls) (lowers : Lowers stage.left) : 0 < s.monitor.incomplete := by
  obtain ⟨n, inHand⟩ := mem_dropped_of_lowers lowers
  have inPlace : n ∈ s.placed q := by
    simp only [Coordinator.placed, dropped, List.mem_append, List.mem_flatMap]
    exact .inr ⟨stage, member, inHand⟩
  exact ledger.raised placed (List.mem_append_right _ inPlace)

theorem Ledger.raised_of_offer (ledger : Ledger s) (placed : Placed s q) {stage : Stage}
    (member : stage ∈ s.calls) (offers : stage.offered ≠ []) : 0 < s.monitor.incomplete := by
  obtain ⟨n, inHand⟩ := List.exists_mem_of_ne_nil _ offers
  have offered : n ∈ s.offered := List.mem_flatMap.mpr ⟨stage, member, inHand⟩
  exact ledger.raised placed (List.mem_append_left _ offered)

theorem length_offered_setCall {i : Nat} {old : Stage} (found : s.calls[i]? = some old)
    (new : Stage) :
    (s.setCall i new).offered.length + old.offered.length =
      s.offered.length + new.offered.length := by
  have set := tally_set (fun stage => stage.offered.length) found new
  simpa only [offered, setCall, ← tally_one, tally_flatMap] using set

theorem pending_setWorker {i : Nat} {old : Worker} (found : s.workers[i]? = some old) (new : Worker)
    (kind : Adjustment → Nat) :
    (s.setWorker i new).pending kind + tally kind old.left =
      s.pending kind + tally kind new.left := by
  have set := tally_set (fun worker : Worker => tally kind worker.left) found new
  simp only [pending, setWorker]
  omega

theorem pending_setCall {i : Nat} {old : Stage} (found : s.calls[i]? = some old) (new : Stage)
    (kind : Adjustment → Nat) :
    (s.setCall i new).pending kind + tally kind old.left =
      s.pending kind + tally kind new.left := by
  have set := tally_set (fun stage : Stage => tally kind stage.left) found new
  simp only [pending, setCall]
  omega

/-- The totals keep up with the counters, as what is left of counting makes up for the difference. -/
theorem Ledger.totals (ledger : Ledger s) (step : Accounting s left left' t) {u : Coordinator}
    (monitor : u.monitor = t.monitor) (counted : u.counts = t.counts)
    (moved : ∀ kind, u.pending kind + tally kind left = s.pending kind + tally kind left') :
    u.monitor.succeeded + u.monitor.abandoned + u.pending Adjustment.ends =
        u.counts.length + u.pending Adjustment.lowers ∧
      u.monitor.discarded + u.pending Adjustment.discards ≤
        u.monitor.abandoned + u.pending Adjustment.abandons := by
  rw [monitor, counted]
  constructor
  · have total := ledger.endings
    have change := step.endings
    have ends := moved Adjustment.ends
    have lowers := moved Adjustment.lowers
    omega
  · have total := ledger.discards
    have change := step.discards
    have discards := moved Adjustment.discards
    have abandons := moved Adjustment.abandons
    omega

theorem Ledger.of_worker (ledger : Ledger s) (placed : Placed s q) {i : Nat} {old new : Worker}
    (found : s.workers[i]? = some old) (step : WorkerStep s q old new t q') :
    Ledger (t.setWorker i new) := by
  have member := List.mem_of_getElem? found
  have closing := ledger.closingWorkers old member
  have accounting := accounting_of_workerStep step
  have workers := workers_of_workerStep step
  have calls := calls_of_workerStep step
  have moved : ∀ kind, (t.setWorker i new).pending kind + tally kind old.left =
      s.pending kind + tally kind new.left := fun kind => by
    have set := pending_setWorker (workers ▸ found) new kind
    simp only [pending, workers, calls] at set ⊢
    exact set
  have totals := ledger.totals accounting (u := t.setWorker i new) rfl rfl moved
  refine ⟨?_, ?_, totals.1, totals.2, ?_, ?_⟩
  · have gauge := ledger.gauge
    have moved := gauge_of_workerStep step closing (ledger.raised_of_worker placed member)
    have admitted := congrArg List.length (admissions_of_workerStep step)
    simp only [setWorker, counts, admissions, offered, calls] at *
    omega
  · have total := ledger.admitted
    have moved := admitted_of_workerStep step closing
    have admitted := congrArg List.length (admissions_of_workerStep step)
    simp only [setWorker, admissions, calls] at *
    omega
  · intro worker inSet
    rw [setWorker, workers] at inSet
    rcases List.mem_or_eq_of_mem_set inSet with before | rfl
    · exact ledger.closingWorkers worker before
    · exact accounting.closing closing
  · rw [setWorker, calls]
    exact ledger.closingCalls

theorem Ledger.of_call (ledger : Ledger s) (placed : Placed s q) {i : Nat} {old new : Stage}
    (found : s.calls[i]? = some old) (step : CallStep s q old new t q') :
    Ledger (t.setCall i new) := by
  have member := List.mem_of_getElem? found
  have closing := ledger.closingCalls old member
  have accounting := accounting_of_callStep step
  have workers := workers_of_callStep step
  have calls := calls_of_callStep step
  have moved : ∀ kind, (t.setCall i new).pending kind + tally kind old.left =
      s.pending kind + tally kind new.left := fun kind => by
    have set := pending_setCall (calls ▸ found) new kind
    simp only [pending, workers, calls] at set ⊢
    exact set
  have totals := ledger.totals accounting (u := t.setCall i new) rfl rfl moved
  refine ⟨?_, ?_, totals.1, totals.2, ?_, ?_⟩
  · have gauge := ledger.gauge
    have moved := gauge_of_callStep step closing (ledger.raised_of_call placed member)
      (ledger.raised_of_offer placed member)
    have offers := length_offered_setCall found new
    simp only [setCall, counts, admissions, offered, calls] at *
    omega
  · have total := ledger.admitted
    have moved := admitted_of_callStep step closing
    have set := tally_set Stage.admits found new
    simp only [setCall, admissions, calls] at *
    omega
  · rw [setCall, workers]
    exact ledger.closingWorkers
  · intro stage inSet
    rw [setCall, calls] at inSet
    rcases List.mem_or_eq_of_mem_set inSet with before | rfl
    · exact ledger.closingCalls stage before
    · exact accounting.closing closing

theorem left_firstStage (s : Coordinator) (request : Request) :
    (s.firstStage request).left = [] :=
  s.firstStage_cases request (motive := fun stage => stage.left = []) (fun _ => rfl)
    (fun _ => rfl) (fun _ => rfl) fun _ => rfl

theorem admits_firstStage (s : Coordinator) (request : Request) :
    (s.firstStage request).admits = 0 :=
  s.firstStage_cases request (motive := fun stage => stage.admits = 0) (fun _ => rfl)
    (fun _ => rfl) (fun _ => rfl) fun _ => rfl

theorem Ledger.of_transition (ledger : Ledger s) (placed : Placed s q)
    (move : Transition s q m t q') : Ledger t := by
  cases move with
  | worker found step => exact ledger.of_worker placed found step
  | call found step => exact ledger.of_call placed found step
  | resolve | elapse | abandon =>
      exact ⟨ledger.gauge, ledger.admitted, ledger.endings, ledger.discards,
        ledger.closingWorkers, ledger.closingCalls⟩
  | enter request =>
      refine ⟨?_, ?_, ?_, ?_, ledger.closingWorkers, ?_⟩
      · have gauge := ledger.gauge
        simp only [offered, List.flatMap_append, List.flatMap_cons, List.flatMap_nil,
          offered_firstStage, List.append_nil] at gauge ⊢
        exact gauge
      · have total := ledger.admitted
        simp only [tally_append, tally_cons, tally_nil, admits_firstStage] at total ⊢
        exact total
      · have total := ledger.endings
        simp only [pending, tally_append, tally_cons, tally_nil, left_firstStage] at total ⊢
        exact total
      · have total := ledger.discards
        simp only [pending, tally_append, tally_cons, tally_nil, left_firstStage] at total ⊢
        exact total
      · intro stage member
        rcases List.mem_append.mp member with before | now
        · exact ledger.closingCalls stage before
        · rw [List.mem_singleton.mp now, left_firstStage]
          exact .nil
  | @exit i answer found =>
      have pending : ∀ kind, tally (fun stage : Stage => tally kind stage.left)
          (s.calls.eraseIdx i) = tally (fun stage : Stage => tally kind stage.left) s.calls :=
        fun kind => tally_eraseIdx (fun stage : Stage => tally kind stage.left) found
      refine ⟨?_, ?_, ?_, ?_, ledger.closingWorkers, ?_⟩
      · have gauge := ledger.gauge
        have erased := tally_eraseIdx (fun stage : Stage => stage.offered.length) found
        simp only [offered, ← tally_one, tally_flatMap] at gauge erased ⊢
        simp only [Stage.offered, tally_nil, counts, admissions] at gauge erased ⊢
        omega
      · have total := ledger.admitted
        have erased := tally_eraseIdx Stage.admits found
        simp only [Stage.admits, admissions] at total erased ⊢
        omega
      · have total := ledger.endings
        simp only [Coordinator.pending, pending, counts] at total ⊢
        exact total
      · have total := ledger.discards
        simp only [Coordinator.pending, pending] at total ⊢
        exact total
      · intro stage member
        exact ledger.closingCalls stage (List.mem_of_mem_eraseIdx member)

theorem Ledger.of_fresh (config : Config) : Ledger (fresh config) := by
  have none_pending : ∀ kind, (fresh config).pending kind = 0 := fun kind => by
    rw [pending, tally_workers_fresh config rfl]
    rfl
  refine ⟨rfl, rfl, ?_, ?_, ?_, fun stage member => by cases member⟩
  · rw [none_pending, none_pending]
    rfl
  · rw [none_pending]
    exact Nat.zero_le _
  · intro worker member
    rw [List.eq_of_mem_replicate member]
    exact .nil

theorem Arises.booked (arises : Arises config s) : ∃ q, Custody s q ∧ Placed s q ∧ Ledger s :=
  arises.induct (P := fun s q => Placed s q ∧ Ledger s) ⟨.of_fresh config, .of_fresh config⟩
    fun _ custody ⟨placed, ledger⟩ move =>
      ⟨placed.of_transition custody move, ledger.of_transition placed move⟩

end Coordinator

end KeyedJobs
