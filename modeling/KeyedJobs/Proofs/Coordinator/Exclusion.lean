import KeyedJobs.Proofs.Coordinator.Custody

/-! # Mutual exclusion

No two jobs of one key are outside the queue and not released at the same time, and a worker that
releases a key finds it active.
-/

namespace KeyedJobs

/-- Whether the worker is driving a job. -/
def Worker.drives : Worker → Bool
  | .driving _ _ => true
  | _ => false

namespace Coordinator

variable {config : Config} {s : Coordinator} {q : KeyQueue Ticket}

theorem two_holders_le {i j : Nat} {first second : Worker} {key : String}
    (found : s.workers[i]? = some first) (found' : s.workers[j]? = some second) (apart : i ≠ j)
    (holds : 0 < first.holds key) (holds' : 0 < second.holds key) : 2 ≤ s.holders key := by
  have heavy := two_le_tally found found' apart holds holds'
  unfold holders
  omega

/-- What exclusion means in one state. A worker holds its job from the moment it is handed out, over
all calls of the drive, until the key is released. -/
structure Exclusive (s : Coordinator) (q : KeyQueue Ticket) : Prop where
  single : ∀ key, s.holders key ≤ 1
  active : s.channel.closed = false →
    ∀ key, (∃ waiting, q.line? key = some ⟨waiting, true⟩) ↔ s.holders key = 1
  apart : ∀ (i j : Nat) (first second : Worker) (key : String),
    s.workers[i]? = some first → s.workers[j]? = some second →
      0 < first.holds key → 0 < second.holds key → i = j
  releases : ∀ (i : Nat) (done : Driven), s.workers[i]? = some (.releasing done) →
    (∃ waiting, q.line? done.key = some ⟨waiting, true⟩) ∧
      ∃ next q', q.release done.key = .ok (next, q')

theorem Custody.exclusion (custody : Custody s q) : Exclusive s q := by
  have single : ∀ key, s.holders key ≤ 1 := fun key =>
    Nat.le_trans (custody.exclusive key) (q.mark_le_one key)
  refine ⟨single, ?_, ?_, ?_⟩
  · intro opened key
    constructor
    · rintro ⟨waiting, found⟩
      have marked : q.mark key = 1 := KeyQueue.mark_of_line? found
      have counted := custody.marked opened key
      have := single key
      omega
    · intro held
      have marked := custody.exclusive key
      exact KeyQueue.line?_of_mark (by omega)
  · intro i j first second key found found' holds holds'
    by_cases apart : i = j
    · exact apart
    · have heavy := two_holders_le found found' apart holds holds'
      have := single key
      omega
  · intro i done found
    have holds : 0 < (Worker.releasing done).holds done.key := by simp [Worker.holds]
    have marked := custody.mark_pos (List.mem_of_getElem? found) holds
    exact ⟨KeyQueue.line?_of_mark marked, KeyQueue.release_of_mark marked⟩

/-- Whatever the threads do and in whatever order, the queue's lock is not poisoned, the jobs of a
key exclude each other, and no more jobs are driven at once than there are workers. -/
theorem exclusive_of_arises (arises : Arises config s) :
    ∃ q, s.queue = .sound q ∧ Exclusive s q ∧
      s.workers.countP Worker.drives ≤ config.workers.toNat := by
  obtain ⟨q, custody⟩ := arises.custody
  refine ⟨q, custody.sound, custody.exclusion, ?_⟩
  rw [← arises.workers]
  exact List.countP_le_length

/-- While one job of a key is driven, the next one waits in the active line. -/
theorem exclusive_of_second_job :
    let job := Job.new "A" fun _ => .writes []
    let moves : List Move := [.begin (.enqueue job), .call 0, .call 0, .call 0, .call 0, .worker 0,
      .worker 0, .worker 0, .begin (.enqueue job), .call 1, .call 1]
    Arises (.default .single) ((fresh (.default .single)).follow moves) ∧
      ∃ q, ((fresh (.default .single)).follow moves).queue = .sound q ∧
        Exclusive ((fresh (.default .single)).follow moves) q ∧
        ((fresh (.default .single)).follow moves).workers.countP Worker.drives ≤ 1 := by
  intro job moves
  have arises : Arises (.default .single) ((fresh (.default .single)).follow moves) :=
    .follow rfl (by decide)
  exact ⟨arises, exclusive_of_arises arises⟩

end Coordinator

end KeyedJobs
