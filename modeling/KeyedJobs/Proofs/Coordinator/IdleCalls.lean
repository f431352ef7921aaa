import KeyedJobs.Proofs.Coordinator.Rejection
import KeyedJobs.Proofs.Monitor.Deadlines

/-! # Calls that wait for the gauge

What a call comes to that waits until the coordinator is idle, with or without a time limit. It
panics at its beginning if the clock cannot express its deadline, and then leaves no trace.
Otherwise it takes no part in what the others do: wherever it stands, they can make the same moves.
So until its deadline has come, the runs with a limit are the runs without one.
-/

namespace KeyedJobs

namespace Coordinator

variable {config : Config} {s t : Coordinator} {q q' : KeyQueue Ticket} {m : Move}
  {i j k : Nat} {stage : Stage} {timeout : Option Duration} {deadline deadline' : Option Instant}

theorem stepWorker_setCall (s : Coordinator) (i j : Nat) (worker : Worker) (stage : Stage) :
    (s.setCall j stage).stepWorker i worker = (s.stepWorker i worker).setCall j stage := by
  have channel : (s.setCall j stage).channel = s.channel := rfl
  have queue : (s.setCall j stage).queue = s.queue := rfl
  cases worker with
  | receiving =>
      simp only [stepWorker, receive, channel]
      cases s.channel.receive with
      | message first rest => cases first <;> rfl
      | nothing | ended => rfl
  | activating key =>
      simp only [stepWorker, activate, queue]
      split <;> rfl
  | driving ticket drive =>
      simp only [stepWorker, driveOn]
      cases drive.resolution? <;> rfl
  | releasing done =>
      simp only [stepWorker, release, queue]
      split <;> rfl
  | resuming next done =>
      simp only [stepWorker, resume, channel]
      cases s.channel.send? (.resume next) <;> rfl
  | shedding next left done => cases left <;> rfl
  | counting done left => cases left <;> rfl
  | holding | ended | crashed => rfl

theorem setCall_setCall (s : Coordinator) (j : Nat) (stage stage' : Stage) :
    (s.setCall j stage).setCall j stage' = s.setCall j stage' := by
  simp only [setCall, List.set_set]

theorem stepCall_setCall (s : Coordinator) (apart : j ≠ k) (standing stage : Stage) :
    (s.setCall j stage).stepCall k standing = (s.stepCall k standing).setCall j stage := by
  have swapped : ∀ new, (s.calls.set j stage).set k new = (s.calls.set k new).set j stage :=
    fun new => List.set_comm _ _ apart
  cases standing with
  | checking ticket =>
      simp only [stepCall]
      split <;> simp only [setCall, adjust, swapped]
  | pushing ticket =>
      have queue : (s.setCall j stage).queue = s.queue := rfl
      simp only [stepCall, push, queue]
      split <;> simp only [setCall, note, swapped]
  | waking key =>
      have channel : ∀ v : Coordinator, (v.setCall k (.answered .admitted)).channel = v.channel :=
        fun _ => rfl
      have channel' : (s.setCall j stage).channel = s.channel := rfl
      simp only [stepCall, wake, channel, channel']
      split <;> simp only [setCall, say, swapped]
  | marking finishing =>
      have shutDown : (s.setCall j stage).shutDown = s.shutDown := rfl
      simp only [stepCall, shutDown]
      split <;> simp only [setCall, swapped]
  | closing finishing =>
      have queue : (s.setCall j stage).queue = s.queue := rfl
      simp only [stepCall, closeQueue, queue]
      split <;> simp only [setCall, say, swapped]
  | discarding finishing =>
      have queue : (s.setCall j stage).queue = s.queue := rfl
      simp only [stepCall, discardWaiting, queue]
      split <;> simp only [setCall, say, note, swapped]
  | dropping tickets finishing =>
      cases tickets <;> simp only [stepCall, setCall, say, swapped]
  | discounting ticket left rest finishing =>
      cases left <;> simp only [stepCall, setCall, countResolved, adjust, note, swapped]
  | joining workers => simp only [stepCall, joinLog, setCall, say, swapped]
  | refusing | admitting | idling | draining | hangingUp | gathering =>
      simp only [stepCall, setCall, adjust, say, swapped]
  | answered answer => rfl

theorem canMove_setCall (s : Coordinator) (stage : Stage) (others : m ≠ .call j)
    (stays : m ≠ .leave j) : (s.setCall j stage).canMove m = s.canMove m := by
  cases m with
  | call k =>
      have apart : j ≠ k := fun same => others (same ▸ rfl)
      simp only [canMove, setCall, List.getElem?_set_ne apart]
      rfl
  | leave k =>
      have apart : j ≠ k := fun same => stays (same ▸ rfl)
      simp only [canMove, setCall, List.getElem?_set_ne apart]
  | abandon =>
      have same : (s.calls.set j stage).isEmpty = s.calls.isEmpty := by
        rw [Bool.eq_iff_iff, List.isEmpty_iff, List.isEmpty_iff, List.set_eq_nil_iff]
      simp only [canMove, setCall, same]
  | _ => rfl

theorem move_setCall (inside : j < s.calls.length) (stage : Stage) (others : m ≠ .call j)
    (stays : m ≠ .leave j) :
    (s.setCall j stage).move m = (s.move m).setCall (m.place j) stage := by
  cases m with
  | begin request =>
      simp only [move, setCall, Move.place, List.set_append_left _ _ inside]
      rfl
  | call k =>
      have apart : j ≠ k := fun same => others (same ▸ rfl)
      have same : (s.setCall j stage).calls[k]? = s.calls[k]? := List.getElem?_set_ne apart
      simp only [move, same]
      cases s.calls[k]? with
      | none => rfl
      | some standing => exact stepCall_setCall s apart standing stage
  | leave k =>
      have apart : k ≠ j := fun same => stays (same ▸ rfl)
      simp only [move, setCall, Move.place, eraseIdx_set_movedUp _ apart]
  | worker k =>
      have same : (s.setCall j stage).workers[k]? = s.workers[k]? := rfl
      simp only [move, same]
      cases s.workers[k]? with
      | none => rfl
      | some worker => exact stepWorker_setCall s k j worker stage
  | resolve | elapse | abandon => rfl

theorem now_of_workerStep {old new : Worker} (step : WorkerStep s q old new t q') :
    t.now = s.now := by
  cases step <;> rfl

theorem now_of_callStep {old new : Stage} (step : CallStep s q old new t q') : t.now = s.now := by
  cases step <;> rfl

theorem Custody.now_le_move (custody : Custody s q) (possible : s.canMove m = true) :
    s.now ≤ (s.move m).now := by
  obtain ⟨q', move⟩ := custody.transition possible
  generalize s.move m = t at move
  cases move with
  | worker _ step => exact Nat.le_of_eq (now_of_workerStep step).symm
  | call _ step => exact Nat.le_of_eq (now_of_callStep step).symm
  | elapse instant => exact of_decide_eq_true possible
  | enter | exit | resolve | abandon => exact Nat.le_refl _

/-- The call waits with the deadline, or it has its answer, and no is the answer only once the
deadline has come. -/
def Idling (s : Coordinator) (j : Nat) (deadline : Option Instant) : Prop :=
  s.calls[j]? = some (.idling deadline) ∨ ∃ idle, s.calls[j]? = some (.answered (.idle idle)) ∧
    (idle = false → ∃ due ∈ deadline, due ≤ s.now)

/-- The state with another deadline for a call that waits. -/
def redated (s : Coordinator) (j : Nat) (deadline : Option Instant) : Coordinator :=
  match s.calls[j]? with
  | some (.idling _) => s.setCall j (.idling deadline)
  | _ => s

theorem redated_of_idling (found : s.calls[j]? = some (.idling deadline))
    (deadline' : Option Instant) : s.redated j deadline' = s.setCall j (.idling deadline') := by
  rw [redated, found]

theorem redated_of_answered {answer : Answer} (found : s.calls[j]? = some (.answered answer))
    (deadline : Option Instant) : s.redated j deadline = s := by
  rw [redated, found]

theorem canMove_of_idling (found : s.calls[j]? = some (.idling deadline)) :
    s.canMove (.call j) = true ↔ s.monitor.isIdle = true ∨ ∃ due ∈ deadline, due ≤ s.now := by
  simp [canMove, found, canStepCall, Option.any_eq_true]

theorem move_of_idling (found : s.calls[j]? = some (.idling deadline)) :
    s.move (.call j) = s.setCall j (.answered (.idle s.monitor.isIdle)) := by
  simp only [move, found, stepCall]

theorem calls_of_idling (found : s.calls[j]? = some (.idling deadline)) :
    (s.move (.call j)).calls[j]? = some (.answered (.idle s.monitor.isIdle)) := by
  rw [move_of_idling found]
  exact List.getElem?_set_self (List.getElem?_eq_some_iff.mp found).1

theorem Idling.move (idling : s.Idling j deadline) (custody : Custody s q)
    (possible : s.canMove m = true) (stays : m ≠ .leave j) :
    (s.move m).Idling (m.place j) deadline := by
  have later := custody.now_le_move possible
  by_cases own : m = .call j
  · subst own
    rcases idling with found | ⟨idle, found, -⟩
    · refine .inr ⟨_, calls_of_idling found, fun busy => ?_⟩
      rcases (canMove_of_idling found).mp possible with idle | ⟨due, limited, past⟩
      · rw [busy] at idle
        cases idle
      · exact ⟨due, limited, Nat.le_trans past later⟩
    · simp [canMove, found, canStepCall] at possible
  · rcases idling with found | ⟨idle, found, late⟩
    · exact .inl (getElem?_calls_move custody found possible own stays)
    · refine .inr ⟨idle, getElem?_calls_move custody found possible own stays, fun busy => ?_⟩
      obtain ⟨due, limited, past⟩ := late busy
      exact ⟨due, limited, Nat.le_trans past later⟩

theorem Arises.idling (arises : Arises config s) (idling : s.Idling i deadline)
    (attends : Attends s i t j) : t.Idling j deadline := by
  induction attends with
  | here => exact idling
  | step m attends possible stays ih =>
      obtain ⟨q, custody⟩ := (arises.reaches attends.reaches).custody
      exact ih.move custody possible stays

theorem Idling.redated (idling : s.Idling j deadline) (custody : Custody s q)
    (early : ∀ due ∈ deadline, s.now < due) (possible : s.canMove m = true) (stays : m ≠ .leave j)
    (deadline' : Option Instant) :
    (s.redated j deadline').canMove m = true ∧
      (s.redated j deadline').move m = (s.move m).redated (m.place j) deadline' := by
  rcases idling with found | ⟨idle, found, -⟩
  · rw [redated_of_idling found]
    by_cases own : m = .call j
    · subst own
      have found' : (s.setCall j (.idling deadline')).calls[j]? = some (.idling deadline') :=
        List.getElem?_set_self (List.getElem?_eq_some_iff.mp found).1
      -- Before its deadline the call itself can move for the gauge alone, and so with any deadline.
      have idle : s.monitor.isIdle = true := by
        refine ((canMove_of_idling found).mp possible).resolve_right ?_
        rintro ⟨due, limited, past⟩
        exact Nat.not_lt.mpr past (early due limited)
      refine ⟨(canMove_of_idling found').mpr (.inl idle), ?_⟩
      change _ = (s.move (.call j)).redated j deadline'
      rw [redated_of_answered (calls_of_idling found), move_of_idling found', setCall_setCall,
        move_of_idling found]
      rfl
    · have inside := (List.getElem?_eq_some_iff.mp found).1
      rw [canMove_setCall s _ own stays, move_setCall inside _ own stays,
        redated_of_idling (getElem?_calls_move custody found possible own stays)]
      exact ⟨possible, rfl⟩
  · have others : m ≠ .call j := by
      rintro rfl
      simp [canMove, found, canStepCall] at possible
    rw [redated_of_answered found,
      redated_of_answered (getElem?_calls_move custody found possible others stays)]
    exact ⟨possible, rfl⟩

theorem Attends.redated (attends : Attends s i t j) (arises : Arises config s)
    (idling : s.Idling i deadline) (ahead : ∀ due ∈ deadline, t.now < due)
    (deadline' : Option Instant) :
    Attends (s.redated i deadline') i (t.redated j deadline') j := by
  induction attends with
  | here => exact .here
  | @step t j m attends possible stays ih =>
      obtain ⟨q, custody⟩ := (arises.reaches attends.reaches).custody
      have early : ∀ due ∈ deadline, t.now < due := fun due limited =>
        Nat.lt_of_le_of_lt (custody.now_le_move possible) (ahead due limited)
      obtain ⟨possible', moved⟩ :=
        (arises.idling idling attends).redated custody early possible stays deadline'
      rw [← moved]
      exact (ih early).step m possible' stays

theorem Idling.redated_redated (idling : s.Idling j deadline) (deadline' : Option Instant) :
    (s.redated j deadline').redated j deadline = s := by
  rcases idling with found | ⟨idle, found, -⟩
  · obtain ⟨inside, there⟩ := List.getElem?_eq_some_iff.mp found
    have found' : (s.setCall j (.idling deadline')).calls[j]? = some (.idling deadline') :=
      List.getElem?_set_self inside
    rw [redated_of_idling found, redated_of_idling found', setCall_setCall, setCall, ← there,
      List.set_getElem_self]
  · rw [redated_of_answered found, redated_of_answered found]

/-- How far a call is that waits with the deadline: it has its answer or can get one. -/
structure Returning (s : Coordinator) (j : Nat) (deadline : Option Instant) : Prop where
  /-- There is nothing but a yes or a no for it to be told. -/
  stands : s.calls[j]? = some (.idling deadline) ∨
    ∃ idle, s.calls[j]? = some (.answered (.idle idle))
  /-- It is told no only once the deadline has come. -/
  patient : s.calls[j]? = some (.answered (.idle false)) → ∃ due ∈ deadline, due ≤ s.now
  /-- While the gauge is at zero, and once the deadline has come, it is told at once what the gauge
  shows. -/
  told : s.calls[j]? = some (.idling deadline) →
    s.monitor.isIdle = true ∨ (∃ due ∈ deadline, due ≤ s.now) →
      s.canMove (.call j) = true ∧
        (s.move (.call j)).calls[j]? = some (.answered (.idle s.monitor.isIdle))

theorem Idling.returning (idling : s.Idling j deadline) : s.Returning j deadline := by
  refine ⟨?_, ?_, ?_⟩
  · exact idling.imp id fun ⟨idle, found, _⟩ => ⟨idle, found⟩
  · intro told
    rcases idling with found | ⟨idle, found, late⟩
    · cases found.symm.trans told
    · cases found.symm.trans told
      exact late rfl
  · intro found ready
    exact ⟨(canMove_of_idling found).mpr ready, calls_of_idling found⟩

/-- What a call comes to that begins to wait in this state with the time limit, whatever the threads
do after that and in whatever order. -/
structure Waits (s : Coordinator) (timeout : Option Duration) : Prop where
  /-- With a deadline that the clock cannot express, the call panics whatever the gauge shows, and
  leaves everything else as it was. -/
  panics : ¬ Expressible s.now timeout →
    s.move (.begin (.waitUntilIdle timeout)) =
        { s with calls := s.calls ++ [.answered (.overflow .deadlineOverflow)] } ∧
      (s.move (.begin (.waitUntilIdle timeout))).move (.leave s.calls.length) = s
  /-- With any other one it comes to nothing but an answer. -/
  returns : Expressible s.now timeout → ∀ t j,
    Attends (s.move (.begin (.waitUntilIdle timeout))) s.calls.length t j →
      t.Returning j (timeout.map s.now.after)
  /-- Until the deadline has come, the call is one without a limit. -/
  unlimited : Expressible s.now timeout → ∀ u j,
    (∀ due ∈ timeout.map s.now.after, u.now < due) →
      (Attends (s.move (.begin (.waitUntilIdle none))) s.calls.length u j ↔
        ∃ t, Attends (s.move (.begin (.waitUntilIdle timeout))) s.calls.length t j ∧
          t.redated j none = u)

theorem move_begin_wait (expressible : Expressible s.now timeout) :
    s.move (.begin (.waitUntilIdle timeout)) =
      { s with calls := s.calls ++ [.idling (timeout.map s.now.after)] } := by
  simp only [move, firstStage, idleDeadline_of_expressible expressible, Request.brings,
    Nat.add_zero]

theorem calls_begin_wait (expressible : Expressible s.now timeout) :
    (s.move (.begin (.waitUntilIdle timeout))).calls[s.calls.length]? =
      some (.idling (timeout.map s.now.after)) := by
  rw [move_begin_wait expressible]
  exact List.getElem?_concat_length

theorem Idling.of_begin (expressible : Expressible s.now timeout) :
    (s.move (.begin (.waitUntilIdle timeout))).Idling s.calls.length (timeout.map s.now.after) :=
  .inl (calls_begin_wait expressible)

theorem now_redated (s : Coordinator) (j : Nat) (deadline : Option Instant) :
    (s.redated j deadline).now = s.now := by
  unfold redated
  split <;> rfl

theorem expressible_none (now : Instant) : Expressible now none := fun _ limited => by cases limited

theorem redated_begin_wait (expressible : Expressible s.now timeout) {timeout' : Option Duration}
    (expressible' : Expressible s.now timeout') :
    (s.move (.begin (.waitUntilIdle timeout))).redated s.calls.length (timeout'.map s.now.after) =
      s.move (.begin (.waitUntilIdle timeout')) := by
  rw [redated_of_idling (calls_begin_wait expressible), move_begin_wait expressible,
    move_begin_wait expressible']
  simp [setCall]

theorem Arises.waits (arises : Arises config s) (owned : s.abandoned = false)
    (timeout : Option Duration) : s.Waits timeout := by
  have begun : ∀ timeout, Arises config (s.move (.begin (.waitUntilIdle timeout))) := fun _ =>
    arises.reaches ((Reaches.refl s).step _ (by simp [canMove, owned]))
  refine ⟨?_, ?_, ?_⟩
  · intro beyond
    have moved : s.move (.begin (.waitUntilIdle timeout)) =
        { s with calls := s.calls ++ [.answered (.overflow .deadlineOverflow)] } := by
      simp only [move, firstStage, idleDeadline_of_inexpressible beyond, Request.brings,
        Nat.add_zero]
    refine ⟨moved, ?_⟩
    rw [moved]
    simp [move, List.eraseIdx_append_of_length_le]
  · intro expressible t j attends
    exact ((begun timeout).idling (.of_begin expressible) attends).returning
  · intro expressible u j ahead
    have limitless := expressible_none s.now
    constructor
    · -- Whatever happens without a limit can happen with one, also after its deadline.
      intro attends
      have idling := (begun none).idling (.of_begin limitless) attends
      have beside := attends.redated (begun none) (.of_begin limitless)
        (fun _ limited => by cases limited) (timeout.map s.now.after)
      rw [redated_begin_wait limitless expressible] at beside
      exact ⟨_, beside, idling.redated_redated _⟩
    · rintro ⟨t, attends, rfl⟩
      rw [now_redated] at ahead
      rw [← redated_begin_wait expressible limitless]
      exact attends.redated (begun timeout) (.of_begin expressible) ahead none

/-- A wait panics exactly if the clock cannot express its deadline, and a thread that does not panic
gets nothing but an answer: at once while the gauge is at zero, no only once its deadline has come,
and until then as if there were no limit. This holds of the gauge alone, with any number of threads
that wait and change it, and of calls to a coordinator. -/
theorem idleWaits_of_arises (arises : Arises config s) (owned : s.abandoned = false)
    (timeout : Option Duration) (now : Instant) (m : Monitor) (list : List WatchedMonitor.Move) :
    (WatchedMonitor.moves ⟨now, m, []⟩ list).Waits timeout ∧ s.Waits timeout :=
  ⟨(WatchedMonitor.alert_moves now m list).waits timeout, arises.waits owned timeout⟩

/-- A job is being admitted, and a thread waits for it without a limit, when another one begins to
wait for ten seconds. -/
theorem idleWaits_of_ten_seconds :
    let job := Job.new "A" fun _ => .writes []
    let s := (fresh (.default .single)).follow [.begin (.enqueue job), .call 0]
    let w := WatchedMonitor.moves ⟨s.now, .empty, []⟩ [.change .admitting, .enter none, .look 0]
    let timeout := some (Duration.ofParts 10 0)
    (Arises (.default .single) s ∧ s.abandoned = false ∧ Expressible s.now timeout ∧
        w.monitor = s.monitor ∧ s.monitor.isIdle = false) ∧ w.Waits timeout ∧ s.Waits timeout := by
  intro job s w timeout
  have arises : Arises (.default .single) s := .follow rfl (by decide)
  have owned : s.abandoned = false := by decide
  exact ⟨⟨arises, owned, by decide, by decide, by decide⟩,
    idleWaits_of_arises arises owned timeout _ _ _⟩

/-- The longest limit leads beyond the clock's range, so a thread panics with it though no job is
left, where one without a limit is told so at once. -/
theorem overflow_of_longest_limit :
    let longest := some (Duration.ofParts 18446744073709551615 999999999)
    let s := fresh (.default .single)
    let overflown := s.move (.begin (.waitUntilIdle longest))
    let unlimited := (s.move (.begin (.waitUntilIdle none))).move (.call 0)
    Monitor.empty.isIdle = true ∧
      (Monitor.empty.waitIdle longest ⟨0⟩ []).1 = .error .deadlineOverflow ∧
      (Monitor.empty.waitIdle none ⟨0⟩ []).1 = .ok (some true) ∧
      Arises (.default .single) s ∧ s.monitor.isIdle = true ∧
      overflown.calls = [.answered (.overflow .deadlineOverflow)] ∧
      unlimited.calls = [.answered (.idle true)] := by
  intro longest s overflown unlimited
  have told : (Monitor.empty.waitIdle none ⟨0⟩ []).1 = .ok (some true) := by
    rw [Monitor.waitIdle, HelperStep.timeline]
    rfl
  have arises : Arises (.default .single) s := .follow rfl (rfl : s.canFollow [] = true)
  have panicked : overflown.calls = [.answered (.overflow .deadlineOverflow)] :=
    congrArg (·.calls) ((arises.waits rfl longest).panics (by decide)).1
  exact ⟨by decide, rfl, told, arises, by decide, panicked, rfl⟩

end Coordinator

end KeyedJobs
