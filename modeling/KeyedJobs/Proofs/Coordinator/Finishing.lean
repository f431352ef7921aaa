import KeyedJobs.Proofs.Coordinator.WindingDown

/-! # Finishing

A call that finishes shuts down, waits for the gauge and hangs up. In a run that keeps to the order
it hangs up on nobody: the queue is closed by then and every admitted job has been counted. A run
that does not keep to the order, or a job that never ends, is all it takes for this to fail.
-/

namespace KeyedJobs

namespace Coordinator

variable {config : Config} {s t : Coordinator} {q q' : KeyQueue Ticket} {m : Move}

/-- What finishing relies on in one state. -/
structure Finishing (s : Coordinator) (q : KeyQueue Ticket) : Prop where
  /-- Whoever is about to close the channel finds the queue closed and every job counted. -/
  hangsUp : .hangingUp ∈ s.calls → q.closed = true ∧ ∀ n ∈ s.admissions, n ∈ s.counts
  /-- No job is left behind a channel that a call has closed. -/
  closed : s.channel.closed = true → s.abandoned = false →
    q.closed = true ∧ q.allWaiting = [] ∧ ∀ n ∈ s.admissions, n ∈ s.counts
  /-- Whoever waits for the gauge does not wait in vain, but for a drive that never ends. -/
  waits : .draining ∈ s.calls →
    ∃ t, Settles s t ∧ (t.monitor.incomplete = 0 ∨ ∃ i ticket, t.Endless i ticket)

theorem Finished.counted (finished : Finished s q) (placed : Placed s q) :
    ∀ n ∈ s.admissions, n ∈ s.counts := by
  intro n admitted
  have known := placed.perm.mem_iff.mpr admitted
  rw [finished.empty, List.append_nil] at known
  exact known

theorem allWaiting_of_placed (empty : s.placed q = []) : q.allWaiting = [] := by
  simp only [placed, KeyQueue.serials, List.append_eq_nil_iff, List.map_eq_nil_iff] at empty
  exact empty.1.1.1

theorem Arises.staffed (arises : Arises config s) : 0 < s.workers.length := by
  rw [arises.workers]
  obtain ⟨origin, started, -⟩ := arises
  unfold start Config.validate at started
  by_cases none_asked : config.workers = 0
  · simp [none_asked, Except.map] at started
  · have positive : config.workers.toNat ≠ 0 := fun zero =>
      none_asked (UInt64.toNat_inj.mp zero)
    omega

/-- However many threads finish, shut down and enqueue at the same time, finishing loses no job, as
long as nobody looks at the gauge between the mark and the closed queue. -/
theorem finishing_of_orderly (orderly : Orderly config s) :
    ∃ q, s.queue = .sound q ∧ Finishing s q := by
  obtain ⟨q, sound, shut⟩ := orderly.sealed
  refine ⟨q, sound.custody.sound, ?_, ?_, ?_⟩
  · intro hanging
    have finished := shut.hanging hanging
    exact ⟨finished.closed, finished.counted sound.placed⟩
  · intro closed owned
    rcases shut.closed closed with abandoned | finished
    · rw [owned] at abandoned
      cases abandoned
    · exact ⟨finished.closed, allWaiting_of_placed finished.empty, finished.counted sound.placed⟩
  · intro waiting
    have owned : s.abandoned = false := by
      cases abandoned : s.abandoned with
      | false => rfl
      | true =>
          rw [sound.guarded.quiet abandoned] at waiting
          cases waiting
    exact Underway.winds_down ⟨sound, shut, owned, orderly.arises.staffed⟩

/-- Two calls finish, and one of them has found the gauge at zero after the only job was counted. -/
theorem finishing_of_two_calls :
    let job := Job.new "A" fun _ => .writes []
    let s := (fresh (.default .single)).follow
      [.begin (.enqueue job), .begin .waitUntilFinished, .begin .waitUntilFinished, .call 0, .call 0,
        .call 0, .call 0, .call 1, .call 1, .call 2, .worker 0, .worker 0, .worker 0, .worker 0,
        .worker 0, .worker 0, .worker 0, .worker 0, .worker 0, .worker 0, .worker 0, .call 1]
    Orderly (.default .single) s ∧ ∃ q, s.queue = .sound q ∧ Finishing s q := by
  intro job s
  have orderly : Orderly (.default .single) s := .follow (.start rfl) (by decide) (by decide)
  exact ⟨orderly, finishing_of_orderly orderly⟩

/-- A job with a completion that nobody resolves. -/
def stuckJob : Job := .new "A" fun _ => .writes [.never]

/-- The stuck job is driven, and a call waits for it to finish. -/
def stuckState : Coordinator :=
  (fresh (.default .single)).follow [.begin (.enqueue stuckJob), .begin .waitUntilFinished,
    .call 0, .call 0, .call 0, .call 0, .call 1, .call 1, .worker 0, .worker 0, .worker 0, .worker 0]

/-- The only worker drives the stuck job and waits for its completion, or is about to. -/
structure Stuck (s : Coordinator) : Prop where
  policy : s.policy = ⟨none, none⟩
  completions : s.completions = ⟨#[.unresolved (.manual none)], []⟩
  workers : ∃ drive : Drive, s.workers = [.driving ⟨0, stuckJob⟩ drive] ∧
    (drive.phase = .launched [0] ∨ drive.phase = .collecting ⟨none, [⟨0, none⟩]⟩)

theorem Stuck.of_state : Stuck stuckState := ⟨rfl, rfl, _, rfl, .inl rfl⟩

theorem poll_never (now : Instant) :
    Completions.poll now ⟨#[.unresolved (.manual none)], []⟩ 0 =
      (.pending, ⟨#[.unresolved (.manual none)], []⟩) := by
  rw [Completions.poll]
  rfl

theorem poll_stuck (now : Instant) :
    Aggregation.poll now ⟨#[.unresolved (.manual none)], []⟩ ⟨none, [⟨0, none⟩]⟩ =
      (⟨none, [⟨0, none⟩]⟩, ⟨#[.unresolved (.manual none)], []⟩) := by
  simp only [Aggregation.poll, Aggregation.pollSlots, Slot.poll, poll_never, Poll.result?]

theorem step_stuck {drive : Drive} (now : Instant)
    (waits : drive.phase = .launched [0] ∨ drive.phase = .collecting ⟨none, [⟨0, none⟩]⟩) :
    drive.step ⟨none, none⟩ now ⟨#[.unresolved (.manual none)], []⟩ =
      ⟨{ drive with phase := .collecting ⟨none, [⟨0, none⟩]⟩ },
        ⟨#[.unresolved (.manual none)], []⟩, [], []⟩ := by
  rcases waits with launched | collecting
  · have begun : Aggregation.begin now none [0] = ⟨none, [⟨0, none⟩]⟩ := rfl
    simp only [Drive.step, launched, begun, poll_stuck]
    rfl
  · simp only [Drive.step, collecting, poll_stuck]
    rfl

theorem Stuck.of_transition (stuck : Stuck s) (move : Transition s q m t q') : Stuck t := by
  obtain ⟨policy, completions, drive, workers, waits⟩ := stuck
  cases move with
  | @worker i old new t q' found step =>
      rw [workers] at found
      cases i with
      | succ i => simp at found
      | zero =>
          obtain rfl : Worker.driving ⟨0, stuckJob⟩ drive = old := by simpa using found
          cases step with
          | endDrive log ended =>
              rcases waits with phase | phase <;> simp [Drive.resolution?, phase] at ended
          | @drive _ _ taken log going step =>
              rw [policy, completions, step_stuck s.now waits] at step
              subst taken
              refine ⟨policy, rfl, { drive with phase := .collecting ⟨none, [⟨0, none⟩]⟩ }, ?_,
                .inr rfl⟩
              simp only [setWorker, note, workers, List.set_cons_zero]
  | call found step =>
      cases step <;> exact ⟨policy, completions, drive, workers, waits⟩
  | resolve gate result =>
      refine ⟨policy, ?_, drive, workers, waits⟩
      simp [completions, Completions.resolve?]
  | enter | exit | elapse | abandon => exact ⟨policy, completions, drive, workers, waits⟩

theorem Stuck.of_reaches (stuck : Stuck s) (arises : Arises config s) (reaches : Reaches s t) :
    Stuck t ∧ Arises config t := by
  induction reaches with
  | refl => exact ⟨stuck, arises⟩
  | step m _ possible ih =>
      obtain ⟨stuck, origin, started, reached⟩ := ih
      have arises : Arises config _ := ⟨origin, started, reached⟩
      obtain ⟨q, custody⟩ := arises.custody
      obtain ⟨q', move⟩ := custody.transition possible
      exact ⟨stuck.of_transition move, origin, started, reached.step m possible⟩

theorem Stuck.raised (stuck : Stuck s) (arises : Arises config s) : s.monitor.incomplete ≠ 0 := by
  obtain ⟨q, -, placed, ledger⟩ := arises.booked
  obtain ⟨-, -, drive, workers, -⟩ := stuck
  have shown := ledger.incomplete placed
  have taken : s.taken = [0] := by rw [taken, workers]; rfl
  rw [length_placed, taken, List.length_singleton] at shown
  omega

/-- Neither half of finishing holds of every run. If a call finishes while another stands between
the mark and the closed queue, it closes the channel before the queue is closed, and a job that is
admitted then is left behind. And a call that finishes after a job whose completion nobody resolves
waits for a gauge that never reaches zero again. -/
theorem unfinished_of_hasty_call_and_stuck_job :
    (let job := Job.new "A" fun _ => .writes []
      let s := (fresh (.default .single)).follow
        [.begin .shutdown, .call 0, .begin .waitUntilFinished, .call 1, .call 1,
          .begin (.enqueue job), .call 2, .call 2, .call 1, .call 2, .call 2]
      Arises (.default .single) s ∧ s.abandoned = false ∧ s.channel.closed = true ∧
        s.calls[2]? = some (.answered .admitted) ∧
        ∃ q, s.queue = .sound q ∧ q.closed = false ∧ q.allWaiting = [("A", ⟨0, job⟩)]) ∧
      Arises (.default .single) stuckState ∧ .draining ∈ stuckState.calls ∧
        ∀ t, Reaches stuckState t → t.monitor.incomplete ≠ 0 := by
  refine ⟨⟨.follow rfl (by decide), rfl, rfl, rfl, _, rfl, rfl, rfl⟩, ?_⟩
  have arises : Arises (.default .single) stuckState := .follow rfl (by decide)
  have waiting : stuckState.calls[1]? = some .draining := rfl
  refine ⟨arises, List.mem_of_getElem? waiting, ?_⟩
  intro t reaches
  obtain ⟨stuck, arises⟩ := Stuck.of_state.of_reaches arises reaches
  exact stuck.raised arises

end Coordinator

end KeyedJobs
