import KeyedJobs.Proofs.Coordinator.Conservation
import KeyedJobs.Proofs.Coordinator.Wakefulness

/-! # Shutting down

The first call that shuts down sets a mark and then closes the queue; a call that finds the mark set
does neither. What the mark, the queue and the calls that are past the mark have to do with one
another, and what holds once the queue is closed and every admitted job is counted.
-/

namespace KeyedJobs

/-- Whether the call has set the mark and not yet closed the queue. -/
def Stage.closes : Stage → Nat
  | .closing _ => 1
  | _ => 0

/-- Whether the call finishes and waits for the gauge. -/
def Stage.drains : Stage → Bool
  | .draining => true
  | _ => false

/-- Whether the call is past the mark. -/
def Stage.passed : Stage → Bool
  | .closing _ | .discarding _ | .dropping _ _ | .discounting _ _ _ _ | .draining | .hangingUp
  | .gathering | .joining _ => true
  | _ => false

/-- Whether the worker is in its loop and has never found the channel closed. -/
def Worker.works : Worker → Bool
  | .receiving | .activating _ | .holding _ | .driving _ _ | .releasing _ | .resuming _ _
  | .counting _ _ => true
  | .shedding _ _ _ | .ended | .crashed _ => false

open Monitor (Adjustment)

namespace Coordinator

variable {config : Config} {s t : Coordinator} {q q' : KeyQueue Ticket} {m : Move}

/-- What the threads rely on while some of them shut down. -/
structure Guarded (s : Coordinator) (q : KeyQueue Ticket) : Prop where
  /-- Between the mark and the closed queue stands a call that is about to close it. -/
  closing : s.shutDown = true → q.closed = true ∨ 0 < tally Stage.closes s.calls
  marked : ∀ stage ∈ s.calls, stage.passed = true → s.shutDown = true
  /-- Nobody makes calls on a coordinator that its owner has let go of. -/
  quiet : s.abandoned = true → s.calls = []
  working : s.channel.closed = false → ∀ worker ∈ s.workers, worker.works = true

theorem queue_closed_of_workerStep {old new : Worker} (step : WorkerStep s q old new t q') :
    q'.closed = q.closed := by
  cases step with
  | activate taken => exact KeyQueue.closed_tryActivate taken
  | handOver released => exact KeyQueue.closed_release released
  | closeLine _ released => exact KeyQueue.closed_release released
  | _ => rfl

theorem shutDown_of_workerStep {old new : Worker} (step : WorkerStep s q old new t q') :
    t.shutDown = s.shutDown := by
  cases step <;> rfl

theorem abandoned_of_workerStep {old new : Worker} (step : WorkerStep s q old new t q') :
    t.abandoned = s.abandoned := by
  cases step <;> rfl

theorem abandoned_of_callStep {old new : Stage} (step : CallStep s q old new t q') :
    t.abandoned = s.abandoned := by
  cases step <;> rfl

theorem shutDown_of_callStep {old new : Stage} (step : CallStep s q old new t q')
    (marked : s.shutDown = true) : t.shutDown = true := by
  cases step with
  | mark => rfl
  | _ => exact marked

theorem works_of_workerStep {old new : Worker} (step : WorkerStep s q old new t q')
    (opened : s.channel.closed = false) (works : old.works = true) : new.works = true := by
  cases step with
  | leave _ _ closed | refuse _ _ _ closed =>
      rw [opened] at closed
      cases closed
  | shed | drop => cases works
  | _ => rfl

theorem passed_of_callStep {old new : Stage} (step : CallStep s q old new t q')
    (before : old.passed = true → s.shutDown = true) (passed : new.passed = true) :
    t.shutDown = true := by
  cases step with
  | mark => rfl
  | passMark finishing marked => exact marked
  | closeQueue | discard | discount | count | nextDropped | allDropped | drained | hangUp | gather =>
      exact before rfl
  | _ => cases passed

/-- The window between the mark and the closed queue opens when a call sets the mark, and the same
call ends it. -/
theorem closing_of_callStep {old new : Stage} (step : CallStep s q old new t q')
    (marked : t.shutDown = true) :
    q'.closed = true ∨ 0 < new.closes ∨
      (s.shutDown = true ∧ q'.closed = q.closed ∧ old.closes = 0) := by
  cases step with
  | mark => exact .inr (.inl Nat.one_pos)
  | closeQueue => exact .inl rfl
  | push pushed => exact .inr (.inr ⟨marked, KeyQueue.closed_push pushed, rfl⟩)
  | _ => exact .inr (.inr ⟨marked, rfl, rfl⟩)

theorem passed_firstStage (s : Coordinator) (request : Request) :
    (s.firstStage request).passed = false :=
  s.firstStage_cases request (motive := fun stage => stage.passed = false) (fun _ => rfl)
    (fun _ => rfl) (fun _ => rfl) fun _ => rfl

theorem Guarded.of_worker (guarded : Guarded s q) {i : Nat} {old new : Worker}
    (found : s.workers[i]? = some old) (step : WorkerStep s q old new t q') :
    Guarded (t.setWorker i new) q' := by
  refine ⟨?_, ?_, ?_, ?_⟩
  · intro marked
    have window := guarded.closing (shutDown_of_workerStep step ▸ marked)
    rw [queue_closed_of_workerStep step, setWorker, calls_of_workerStep step]
    exact window
  · intro stage member passed
    rw [setWorker, calls_of_workerStep step] at member
    rw [setWorker, shutDown_of_workerStep step]
    exact guarded.marked stage member passed
  · intro abandoned
    rw [setWorker, calls_of_workerStep step]
    exact guarded.quiet (abandoned_of_workerStep step ▸ abandoned)
  · intro opened worker member
    have opened' : s.channel.closed = false := channel_of_workerStep step ▸ opened
    rw [setWorker, workers_of_workerStep step] at member
    rcases List.mem_or_eq_of_mem_set member with before | rfl
    · exact guarded.working opened' worker before
    · have works := guarded.working opened' old (List.mem_of_getElem? found)
      exact works_of_workerStep step opened' works

theorem Guarded.of_call (guarded : Guarded s q) {i : Nat} {old new : Stage}
    (found : s.calls[i]? = some old) (step : CallStep s q old new t q') :
    Guarded (t.setCall i new) q' := by
  have present := List.mem_of_getElem? found
  refine ⟨?_, ?_, ?_, ?_⟩
  · intro marked
    have set := tally_set Stage.closes found new
    have counted := le_tally Stage.closes present
    simp only [setCall, calls_of_callStep step]
    rcases closing_of_callStep step marked with closed | begun | ⟨before, same, other⟩
    · exact .inl closed
    · exact .inr (by omega)
    · rw [same]
      rcases guarded.closing before with closed | window
      · exact .inl closed
      · exact .inr (by omega)
  · intro stage member passed
    rw [setCall, calls_of_callStep step] at member
    rcases List.mem_or_eq_of_mem_set member with before | rfl
    · have marked : t.shutDown = true :=
        shutDown_of_callStep step (guarded.marked stage before passed)
      exact marked
    · have marked : t.shutDown = true :=
        passed_of_callStep step (guarded.marked old present) passed
      exact marked
  · intro abandoned
    have none_calls := guarded.quiet (abandoned_of_callStep step ▸ abandoned)
    rw [none_calls] at present
    cases present
  · intro opened worker member
    rw [setCall, workers_of_callStep step] at member
    exact guarded.working (opened_of_callStep step opened) worker member

theorem Guarded.of_transition (guarded : Guarded s q) (move : Transition s q m t q') :
    Guarded t q' := by
  cases move with
  | worker found step => exact guarded.of_worker found step
  | call found step => exact guarded.of_call found step
  | resolve | elapse => exact ⟨guarded.closing, guarded.marked, guarded.quiet, guarded.working⟩
  | enter request owned =>
      refine ⟨?_, ?_, ?_, guarded.working⟩
      · intro marked
        rw [tally_append]
        rcases guarded.closing marked with closed | window
        · exact .inl closed
        · exact .inr (by omega)
      · intro stage member passed
        rcases List.mem_append.mp member with before | now
        · exact guarded.marked stage before passed
        · rw [List.mem_singleton.mp now, passed_firstStage] at passed
          cases passed
      · intro abandoned
        rw [owned] at abandoned
        cases abandoned
  | exit found =>
      refine ⟨?_, ?_, ?_, guarded.working⟩
      · intro marked
        have erased : tally Stage.closes (s.calls.eraseIdx _) + 0 = tally Stage.closes s.calls :=
          tally_eraseIdx Stage.closes found
        rcases guarded.closing marked with closed | window
        · exact .inl closed
        · exact .inr (Nat.lt_of_lt_of_eq window erased.symm)
      · intro stage member passed
        exact guarded.marked stage (List.mem_of_mem_eraseIdx member) passed
      · intro abandoned
        rw [guarded.quiet abandoned] at found
        cases found
  | abandon quiet owned =>
      refine ⟨guarded.closing, guarded.marked, fun _ => quiet, ?_⟩
      intro opened
      cases opened

theorem Guarded.of_fresh (config : Config) : Guarded (fresh config) .empty := by
  refine ⟨?_, ?_, fun _ => rfl, ?_⟩
  · intro marked
    cases marked
  · intro stage member
    cases member
  · intro _ worker member
    rw [List.eq_of_mem_replicate member]
    rfl

theorem counts_countResolved (s : Coordinator) (serial : Nat) (adjustment : Adjustment) :
    s.counts <+: (s.countResolved serial adjustment).counts := by
  unfold countResolved
  rw [counts_note]
  exact List.prefix_append ..

theorem counts_of_transition (move : Transition s q m t q') : s.counts <+: t.counts := by
  cases move with
  | worker found step =>
      cases step with
      | shed | count => exact counts_countResolved ..
      | drive | endDrive | refuse =>
          simp only [setWorker, counts, note, Array.toList_appendList, List.flatMap_append]
          exact List.prefix_append ..
      | _ => exact List.prefix_refl _
  | call found step =>
      cases step with
      | count => exact counts_countResolved ..
      | push | discard =>
          simp only [setCall, counts, note, Array.toList_appendList, List.flatMap_append]
          exact List.prefix_append ..
      | _ => exact List.prefix_refl _
  | _ => exact List.prefix_refl _

theorem admissions_of_refused (refused : ∀ ticket, .pushing ticket ∈ s.calls → q.closed = true)
    (move : Transition s q m t q') : t.admissions = s.admissions := by
  cases move with
  | worker found step =>
      have same := admissions_of_workerStep step
      exact same
  | call found step =>
      cases step with
      | push pushed =>
          have closed := refused _ (List.mem_of_getElem? found)
          rw [(KeyQueue.push_eq_ok pushed).1] at closed
          cases closed
      | discard =>
          simp only [setCall, admissions, note, Array.toList_appendList, List.flatMap_append,
            admits_discarded, List.append_nil]
      | count => exact admissions_countResolved ..
      | _ => rfl
  | _ => rfl

theorem queue_closed_of_transition (closed : q.closed = true) (move : Transition s q m t q') :
    q'.closed = true := by
  cases move with
  | worker found step => rw [queue_closed_of_workerStep step, closed]
  | call found step =>
      cases step with
      | push pushed => rw [KeyQueue.closed_push pushed, closed]
      | closeQueue => rfl
      | _ => exact closed
  | _ => exact closed

theorem marked_of_closed (before : q.closed = true → s.shutDown = true) (guarded : Guarded s q)
    (move : Transition s q m t q') (closed : q'.closed = true) : t.shutDown = true := by
  cases move with
  | worker found step =>
      rw [queue_closed_of_workerStep step] at closed
      rw [setWorker, shutDown_of_workerStep step]
      exact before closed
  | call found step =>
      suffices marked : s.shutDown = true from (shutDown_of_callStep step marked : _)
      cases step with
      | push pushed => exact before (KeyQueue.closed_push pushed ▸ closed)
      | closeQueue => exact guarded.marked _ (List.mem_of_getElem? found) rfl
      | _ => exact before closed
  | _ => exact before closed

/-- The queue is closed and every admitted job has been counted. -/
structure Finished (s : Coordinator) (q : KeyQueue Ticket) : Prop where
  closed : q.closed = true
  empty : s.placed q = []

theorem placed_of_transition (empty : s.placed q = []) (before : Placed s q) (after : Placed t q')
    (move : Transition s q m t q') (same : t.admissions = s.admissions) : t.placed q' = [] := by
  rw [List.eq_nil_iff_forall_not_mem]
  intro n inPlace
  have present := List.count_pos_iff.mpr inPlace
  have kept := before.kept n
  have kept' := after.kept n
  have counted := (counts_of_transition move).sublist.count_le n
  rw [same] at kept'
  rw [empty, List.count_nil] at kept
  omega

theorem Finished.of_transition (finished : Finished s q) (before : Placed s q) (after : Placed t q')
    (move : Transition s q m t q') : Finished t q' where
  closed := queue_closed_of_transition finished.closed move
  empty := placed_of_transition finished.empty before after move
    (admissions_of_refused (fun _ _ => finished.closed) move)

/-- An idle gauge behind a closed queue stays meaningful: no job can come any more. -/
theorem Ledger.finished (ledger : Ledger s) (placed : Placed s q)
    (idle : s.monitor.incomplete = 0) (closed : q.closed = true) : Finished s q := by
  have shown := ledger.incomplete placed
  exact ⟨closed, List.length_eq_zero_iff.mp (by omega)⟩

/-- Whether the move keeps to the order: no call that finishes looks at the gauge while another call
stands between setting the mark and closing the queue. -/
def isTimely (s : Coordinator) : Move → Bool
  | .call i => !s.calls[i]?.any Stage.drains || s.calls.all fun stage => stage.closes = 0
  | _ => true

/-- The states of runs all of whose moves keep to the order. -/
inductive Orderly (config : Config) : Coordinator → Prop where
  | start {s : Coordinator} (started : start config = .ok s) : Orderly config s
  | step {s : Coordinator} (m : Move) (orderly : Orderly config s) (possible : s.canMove m = true)
      (timely : s.isTimely m = true) : Orderly config (s.move m)

theorem Orderly.arises (orderly : Orderly config s) : Arises config s := by
  induction orderly with
  | start started => exact ⟨_, started, .refl _⟩
  | step m _ possible _ ih =>
      obtain ⟨origin, started, reaches⟩ := ih
      exact ⟨origin, started, reaches.step m possible⟩

/-- What holds once a call that finishes has found the gauge at zero. -/
structure Sealed (s : Coordinator) (q : KeyQueue Ticket) : Prop where
  hanging : .hangingUp ∈ s.calls → Finished s q
  closed : s.channel.closed = true → s.abandoned = true ∨ Finished s q

theorem closed_of_callStep {old new : Stage} (step : CallStep s q old new t q')
    (closed : t.channel.closed = true) : s.channel.closed = true ∨ old = .hangingUp := by
  cases step with
  | hangUp => exact .inr rfl
  | wake => cases closed
  | _ => exact .inl closed

theorem hanging_of_callStep {old new : Stage} (step : CallStep s q old new t q')
    (hanging : new = .hangingUp) : old = .draining ∧ s.monitor.incomplete = 0 := by
  cases step with
  | drained idle => exact ⟨rfl, idle⟩
  | passMark finishing => cases finishing <;> cases hanging
  | allDropped onward => cases onward using onward_cases <;> cases hanging
  | closeQueue finishing =>
      revert hanging
      cases s.shutdownPolicy <;> cases finishing <;> exact fun hanging => by cases hanging
  | _ => cases hanging

/-- Whoever finds the gauge at zero finds the queue closed. -/
def Heedful (s : Coordinator) (q : KeyQueue Ticket) (m : Move) : Prop :=
  ∀ i, m = .call i → s.calls[i]? = some .draining → s.monitor.incomplete = 0 → q.closed = true

theorem Guarded.heedful (guarded : Guarded s q) (timely : s.isTimely m = true) :
    Heedful s q m := by
  rintro i rfl found -
  have settled : ∀ stage ∈ s.calls, stage.closes = 0 := by
    simpa [isTimely, found, Stage.drains] using timely
  have marked := guarded.marked .draining (List.mem_of_getElem? found) rfl
  rcases guarded.closing marked with closed | window
  · exact closed
  · rw [tally_eq_zero.mpr settled] at window
    omega

theorem Sealed.of_transition (shut : Sealed s q) (heedful : Heedful s q m) (ledger : Ledger s)
    (before : Placed s q) (after : Placed t q') (move : Transition s q m t q') : Sealed t q' := by
  have kept : Finished s q → Finished t q' := fun finished =>
    finished.of_transition before after move
  cases move with
  | worker found step =>
      constructor
      · intro hanging
        rw [setWorker, calls_of_workerStep step] at hanging
        exact kept (shut.hanging hanging)
      · intro closed
        have owner := abandoned_of_workerStep step
        exact (shut.closed (channel_of_workerStep step ▸ closed)).imp owner.trans kept
  | @call i old new t q' found step =>
      constructor
      · intro hanging
        rw [setCall, calls_of_callStep step] at hanging
        rcases List.mem_or_eq_of_mem_set hanging with earlier | now
        · exact kept (shut.hanging earlier)
        · obtain ⟨rfl, idle⟩ := hanging_of_callStep step now.symm
          exact kept (ledger.finished before idle (heedful i rfl found idle))
      · intro closed
        have owner := abandoned_of_callStep step
        rcases closed_of_callStep step closed with earlier | rfl
        · exact (shut.closed earlier).imp owner.trans kept
        · exact .inr (kept (shut.hanging (List.mem_of_getElem? found)))
  | resolve | elapse =>
      exact ⟨fun hanging => kept (shut.hanging hanging),
        fun closed => (shut.closed closed).imp id kept⟩
  | enter request =>
      refine ⟨?_, fun closed => (shut.closed closed).imp id kept⟩
      intro hanging
      rcases List.mem_append.mp hanging with earlier | now
      · exact kept (shut.hanging earlier)
      · have passed := s.passed_firstStage request
        rw [← List.mem_singleton.mp now] at passed
        cases passed
  | exit =>
      exact ⟨fun hanging => kept (shut.hanging (List.mem_of_mem_eraseIdx hanging)),
        fun closed => (shut.closed closed).imp id kept⟩
  | abandon quiet =>
      refine ⟨?_, fun _ => .inl rfl⟩
      intro hanging
      exact kept (shut.hanging hanging)

/-- Everything that holds in every state of a run. -/
structure Sound (s : Coordinator) (q : KeyQueue Ticket) : Prop where
  custody : Custody s q
  awake : Awake s q
  placed : Placed s q
  ledger : Ledger s
  guarded : Guarded s q

theorem Sound.of_transition (sound : Sound s q) (move : Transition s q m t q') : Sound t q' where
  custody := sound.custody.of_transition move
  awake := sound.awake.of_transition sound.custody move
  placed := sound.placed.of_transition sound.custody move
  ledger := sound.ledger.of_transition sound.placed move
  guarded := sound.guarded.of_transition move

theorem Sound.of_fresh (config : Config) : Sound (fresh config) .empty :=
  ⟨.of_fresh config, .of_fresh config, .of_fresh config, .of_fresh config, .of_fresh config⟩

theorem Sound.move (sound : Sound s q) (possible : s.canMove m = true) :
    ∃ q', Transition s q m (s.move m) q' ∧ Sound (s.move m) q' := by
  obtain ⟨q', move⟩ := sound.custody.transition possible
  exact ⟨q', move, sound.of_transition move⟩

theorem Sealed.of_fresh (config : Config) : Sealed (fresh config) .empty := by
  constructor
  · intro hanging
    cases hanging
  · intro closed
    cases closed

theorem Orderly.sealed (orderly : Orderly config s) : ∃ q, Sound s q ∧ Sealed s q := by
  induction orderly with
  | start started =>
      obtain rfl := start_eq_ok started
      exact ⟨_, .of_fresh config, .of_fresh config⟩
  | step m _ possible timely ih =>
      obtain ⟨q, sound, shut⟩ := ih
      obtain ⟨q', move, after⟩ := sound.move possible
      have heedful := sound.guarded.heedful timely
      exact ⟨q', after, shut.of_transition heedful sound.ledger sound.placed after.placed move⟩

/-- Whether the moves keep to the order when they are made one after the other. -/
def keepsOrder : Coordinator → List Move → Bool
  | _, [] => true
  | s, m :: rest => s.isTimely m && keepsOrder (s.move m) rest

theorem Orderly.follow (orderly : Orderly config s) {moves : List Move}
    (possible : s.canFollow moves = true) (timely : s.keepsOrder moves = true) :
    Orderly config (s.follow moves) := by
  induction moves generalizing s with
  | nil => exact orderly
  | cons m rest ih =>
      simp only [canFollow, keepsOrder, Bool.and_eq_true] at possible timely
      exact ih (orderly.step m possible.1 timely.1) possible.2 timely.2

end Coordinator

end KeyedJobs
