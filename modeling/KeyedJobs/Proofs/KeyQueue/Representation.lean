import KeyedJobs.Proofs.KeyQueue.History
import Mathlib.Data.Finset.Card

/-! # Which keys have a line

The exchanges so far say of each key whether a job of it is handed out and whether one waits. A key
has a line if and only if one of these holds, so the lines can be counted, and the line that a
release finds tells what the release does. A release that finds waiting jobs and none handed out
panics with the lock held, and no call returns after that.
-/

namespace KeyedJobs

variable {α : Type}

namespace KeyQueue

variable {history : List (Exchange α)} {q q' : KeyQueue α} {key : String}

/-- More jobs of the key were accepted than have been handed out or discarded. -/
def Waits (key : String) (history : List (Exchange α)) : Prop :=
  (history.flatMap (·.handsOut key)).length + (history.flatMap (·.discards key)).length <
    (history.flatMap (·.accepts key)).length

theorem Remembers.waits_iff (remembers : Remembers history q) (key : String) :
    q.waitingOn key ≠ [] ↔ Waits key history := by
  obtain ⟨gone, interleaves, accepted⟩ := remembers.interleaves key
  rw [Waits, accepted, ← interleaves.length_eq, List.length_append, List.ne_nil_iff_length_pos]
  omega

/-! ## The keys with a line -/

theorem WellFormed.isSome_line?_iff (formed : q.WellFormed) (key : String) :
    (q.line? key).isSome = true ↔ q.mark key = 1 ∨ q.waitingOn key ≠ [] := by
  cases found : q.line? key with
  | none => simp [mark, waitingOn, found]
  | some line =>
      obtain ⟨before, after, lines, -⟩ := List.lookup_eq_some_iff.mp found
      have present : (key, line) ∈ q.lines := by simp [lines]
      have inhabited := formed.inhabited _ present
      simpa [mark_of_line? found, waitingOn_of_line? found] using inhabited

theorem WellFormed.mem_keys_iff (formed : q.WellFormed) (key : String) :
    key ∈ q.lines.map (·.1) ↔ (q.line? key).isSome = true := by
  constructor
  · intro member
    obtain ⟨⟨present, line⟩, inLines, rfl⟩ := List.mem_map.mp member
    have found : q.line? present = some line := lookup_eq_some_of_mem formed.distinct inLines
    rw [found]
    rfl
  · intro some_line
    obtain ⟨line, found⟩ := Option.isSome_iff_exists.mp some_line
    exact mem_keys_of_lookup found

theorem WellFormed.exists_keys (formed : q.WellFormed) :
    ∃ keys : Finset String, keys.card = q.keyCount ∧
      ∀ key, key ∈ keys ↔ q.mark key = 1 ∨ q.waitingOn key ≠ [] := by
  refine ⟨(q.lines.map (·.1)).toFinset, ?_, fun key => ?_⟩
  · rw [List.toFinset_card_of_nodup formed.distinct, List.length_map]
    rfl
  · rw [List.mem_toFinset, formed.mem_keys_iff, formed.isSome_line?_iff]

theorem WellFormed.isSome_line?_discardWaiting (formed : q.WellFormed) (key : String) :
    (q.discardWaiting.2.line? key).isSome = true ↔ q.mark key = 1 := by
  rw [formed.discardWaiting.isSome_line?_iff, formed.mark_discardWaiting,
    formed.waitingOn_discardWaiting]
  simp

/-! ## What a release finds -/

theorem WellFormed.release_eq_error_iff (formed : q.WellFormed) {fault : InactiveRelease} :
    q.release key = .error fault ↔
      fault = ⟨key⟩ ∧ q.waitingOn key ≠ [] ∧ q.mark key ≠ 1 := by
  unfold KeyQueue.release
  split
  · rename_i absent
    simp [mark, waitingOn, absent]
  · rename_i waiting found
    -- The line is not active, so it has a job that waits.
    have present := (formed.isSome_line?_iff key).mp (by rw [found]; rfl)
    have idle : q.mark key ≠ 1 := by simp [mark_of_line? found]
    have waits := present.resolve_left idle
    simp [idle, waits, eq_comm]
  · rename_i rest found
    simp [mark_of_line? found]
  · rename_i found
    simp [mark_of_line? found]

theorem lines_ne_of_dropLine (present : (q.line? key).isSome = true) :
    { q with lines := dropLine key q.lines } ≠ q := by
  intro same
  have gone := congrArg (fun left : KeyQueue α => left.line? key) same
  rw [line?_dropLine, if_pos rfl] at gone
  rw [← gone] at present
  cases present

theorem release_eq_self_iff : q.release key = .ok (none, q) ↔ q.line? key = none := by
  constructor
  · intro released
    rcases release_eq_none released with ⟨absent, -⟩ | ⟨found, same⟩
    · exact absent
    · exact absurd same.symm (lines_ne_of_dropLine (by rw [found]; rfl))
  · intro absent
    rw [release, absent]

end KeyQueue

namespace SharedQueue

open KeyQueue

variable {q : KeyQueue α} {history : List (Exchange α)} {key : String} {fault : Fault}

theorem performEach_poisoned (operations : List (Operation α)) :
    performEach .poisoned operations = (operations.map fun _ => .error .poisoned, .poisoned) := by
  induction operations with
  | nil => rfl
  | cons operation rest ih => simp [performEach, SharedQueue.perform, ih]

theorem exists_replies {queue : SharedQueue α} {operations : List (Operation α)}
    (sound : (performEach queue operations).2 = .sound q) :
    ∃ replies : List (Reply α), (performEach queue operations).1 = replies.map .ok := by
  induction operations generalizing queue with
  | nil => exact ⟨[], rfl⟩
  | cons operation rest ih =>
      cases queue with
      | poisoned =>
          rw [performEach_poisoned] at sound
          cases sound
      | sound before =>
          cases first : before.perform operation with
          | error fault =>
              simp [performEach, perform_of_error first, performEach_poisoned] at sound
          | ok result =>
              obtain ⟨reply, next⟩ := result
              rw [performEach_of_ok first] at sound ⊢
              obtain ⟨replies, answered⟩ := ih sound
              exact ⟨reply :: replies, by rw [answered]; rfl⟩

theorem perform_release (q : KeyQueue α) (key : String) :
    perform (.sound q) (.release key) =
      match q.release key with
      | .error reason => (.error (.raised reason), .poisoned)
      | .ok (next, after) => (.ok (.handedOut key next), .sound after) := by
  cases released : q.release key with
  | error reason => exact perform_of_error (by rw [KeyQueue.perform, released]; rfl)
  | ok result => exact perform_of_ok (by rw [KeyQueue.perform, released]; rfl)

theorem perform_release_eq_error_iff :
    (perform (.sound q) (.release key)).1 = .error fault ↔
      ∃ reason, fault = .raised reason ∧ q.release key = .error reason := by
  rw [perform_release]
  cases q.release key <;> simp [eq_comm]

theorem perform_release_eq_self_iff :
    perform (.sound q) (.release key) = (.ok (.handedOut key none), .sound q) ↔
      q.release key = .ok (none, q) := by
  rw [perform_release]
  cases q.release key <;> simp [Prod.ext_iff]

/-- What a queue that is not poisoned holds after some exchanges, and what a release does to it. -/
structure Represented (history : List (Exchange α)) (q : KeyQueue α) : Prop where
  /-- Each line is active or holds a job. -/
  inhabited : ∀ entry ∈ q.lines, entry.2.active = true ∨ entry.2.waiting ≠ []
  /-- As many keys are counted as have a job that is handed out or waits. -/
  counted : ∃ keys : Finset String, keyCount (.sound q) = .ok keys.card ∧
    ∀ key, key ∈ keys ↔ Engaged key history ∨ Waits key history
  /-- Of the lines that the waiting jobs are discarded from, those of the active keys remain. -/
  cleared : ∃ left, (perform (.sound q) .discardWaiting).2 = .sound left ∧
    ∀ key, key ∈ left.lines.map (·.1) ↔ Engaged key history
  /-- A release panics if jobs of the key wait and none is handed out, and it says so. -/
  panics (key : String) (fault : Fault) : (perform (.sound q) (.release key)).1 = .error fault ↔
    fault = .raised ⟨key⟩ ∧ Waits key history ∧ ¬ Engaged key history
  /-- A release hands out nothing and changes nothing if the key has no line. -/
  idle (key : String) :
    perform (.sound q) (.release key) = (.ok (.handedOut key none), .sound q) ↔
      key ∉ q.lines.map (·.1)
  /-- After a release that panics every call panics. -/
  final {key : String} {fault : Fault}
    (panics : (perform (.sound q) (.release key)).1 = .error fault) :
    let queue := (perform (.sound q) (.release key)).2
    queue.keyCount = .error .poisoned ∧ queue.isClosed = .error .poisoned ∧
      ∀ later, (queue.performEach later).1 = later.map fun _ => .error .poisoned

theorem represented_of_remembers (remembers : Remembers history q) : Represented history q where
  inhabited := remembers.wellFormed.inhabited
  counted := by
    obtain ⟨keys, count, members⟩ := remembers.wellFormed.exists_keys
    refine ⟨keys, ?_, fun key => ?_⟩
    · rw [count]
      rfl
    · rw [members, remembers.mark_iff, remembers.waits_iff]
  cleared := by
    refine ⟨q.discardWaiting.2, rfl, fun key => ?_⟩
    have formed := remembers.wellFormed
    rw [formed.discardWaiting.mem_keys_iff, formed.isSome_line?_discardWaiting, remembers.mark_iff]
  panics key fault := by
    simp only [perform_release_eq_error_iff, remembers.wellFormed.release_eq_error_iff,
      ← remembers.mark_iff, ← remembers.waits_iff]
    constructor
    · rintro ⟨reason, rfl, rfl, finds⟩
      exact ⟨rfl, finds⟩
    · rintro ⟨rfl, finds⟩
      exact ⟨_, rfl, rfl, finds⟩
  idle key := by
    rw [perform_release_eq_self_iff, release_eq_self_iff, remembers.wellFormed.mem_keys_iff]
    simp
  final panics := by
    rw [perform, Lock.access_eq_poisoned panics]
    exact ⟨rfl, rfl, fun later => by rw [performEach_poisoned]⟩

/-- Whatever operations a new queue is given, as long as it is not poisoned its lines are those of
the keys with a job that is handed out or waits, and a release panics only if it finds none handed
out. -/
theorem represented_of_performEach {operations : List (Operation α)}
    (sound : (performEach (.sound .empty) operations).2 = .sound q) :
    ∃ replies : List (Reply α), (performEach (.sound .empty) operations).1 = replies.map .ok ∧
      Represented (operations.zip replies) q := by
  obtain ⟨replies, answered⟩ := exists_replies sound
  obtain ⟨q', sound', remembers⟩ := remembers_of_performEach answered .begin
  obtain rfl : q' = q := Lock.sound.inj (sound'.symm.trans sound)
  exact ⟨replies, answered, represented_of_remembers (by simpa using remembers)⟩

/-- A key that is active while another job waits, a key with a job that nobody has taken and a key
that came and went. -/
def mixture : List (Operation Nat) :=
  [.push "a" 1, .push "b" 2, .tryActivate "a", .push "a" 3, .push "c" 4, .tryActivate "c",
    .release "c"]

theorem represented_of_mixture :
    let q : KeyQueue Nat := ⟨[("a", ⟨[3], true⟩), ("b", ⟨[2], false⟩)], false⟩
    ((performEach (.sound .empty) mixture).2 = .sound q ∧
        (perform (.sound q) (.release "b")).1 = .error (.raised ⟨"b"⟩)) ∧
      ∃ replies : List (Reply Nat), (performEach (.sound .empty) mixture).1 = replies.map .ok ∧
        Represented (mixture.zip replies) q :=
  ⟨⟨rfl, rfl⟩, represented_of_performEach rfl⟩

end SharedQueue

end KeyedJobs
