import KeyedJobs.Proofs.Retry.Surroundings

/-! # The last attempt of a job

Which attempts have a write that fails decides how a job ends: with the first attempt that has none,
or when the retries are used up. No attempt is made after the last one.
-/

namespace KeyedJobs

/-- No attempt follows the one with this number: it has no failing write, or no retry is left. -/
structure Job.EndsBy (plan : Plan) (job : Job) (last : Nat) : Prop where
  positive : 0 < last
  final : (job.action last).failed plan = [] ∨ job.maxRetries < min last maxAttempts

/-- The attempts so far were made, each but the last one being followed by a retry. -/
structure Job.Retries (plan : Plan) (job : Job) (count : Nat) : Prop where
  fails : ∀ number, 1 ≤ number → number ≤ count → (job.action number).failed plan ≠ []
  left : min count maxAttempts ≤ job.maxRetries

/-- The numbers that the plot carries are those of an attempt up to the last one. -/
def Plot.Counts (plan : Plan) (job : Job) (last : Nat) : Plot → Prop
  | .ready calls attempts => calls < last ∧ attempts = min calls maxAttempts
  | .judging calls attempts failed =>
      calls ≤ last ∧ attempts = min calls maxAttempts ∧ failed = (job.action calls).failed plan
  | _ => True

variable {plan : Plan} {job : Job} {last count : Nat}

theorem Plot.Counts.next (endsBy : job.EndsBy plan last) {plot : Plot}
    (counts : plot.Counts plan job last) : (plot.next plan job).1.Counts plan job last := by
  cases plot with
  | ready calls attempts =>
      obtain ⟨before, rfl⟩ := counts
      exact ⟨before, nextAttempt_min calls, rfl⟩
  | judging calls attempts failed =>
      obtain ⟨within, rfl, rfl⟩ := counts
      simp only [Plot.next]
      cases decision : Decision.afterAttempt ((job.action calls).failed plan).isEmpty
        (min calls maxAttempts) job.maxRetries job.hasCompensator with
      | retry =>
          refine ⟨Nat.lt_of_le_of_ne within ?_, rfl⟩
          rintro rfl
          -- After the last attempt there is nothing to retry, or it must not be.
          unfold Decision.afterAttempt at decision
          rcases endsBy.final with success | spent
          · simp [success] at decision
          · rw [if_neg (Nat.not_le.mpr spent)] at decision
            split at decision
            · cases decision
            · split at decision <;> cases decision
      | succeed | compensate | abandon => trivial
  | reverting | reverted | ended => trivial

theorem Job.EndsBy.counts (endsBy : job.EndsBy plan last) (fresh : job.attemptCount = 0)
    (turns : Nat) : (job.story plan turns).1.Counts plan job last := by
  induction turns with
  | zero => exact ⟨endsBy.positive, fresh⟩
  | succ turns ih => exact ih.next endsBy

namespace Job

theorem Retries.fewer (retries : job.Retries plan (count + 1)) : job.Retries plan count where
  fails number first within := retries.fails number first (Nat.le_succ_of_le within)
  left := by
    have left := retries.left
    omega

theorem story_judging
    (ready : job.story plan (2 * count) = (.ready count (min count maxAttempts), attempts count)) :
    job.story plan (2 * count + 1) = (.judging (count + 1) (min (count + 1) maxAttempts)
      ((job.action (count + 1)).failed plan), attempts (count + 1)) := by
  rw [story, ready, attempts_succ]
  simp only [Plot.next, nextAttempt_min]

theorem Retries.story_ready (fresh : job.attemptCount = 0) (retries : job.Retries plan count) :
    job.story plan (2 * count) = (.ready count (min count maxAttempts), attempts count) := by
  induction count with
  | zero => simp [story, fresh, attempts]
  | succ count ih =>
      have judging := story_judging (ih retries.fewer)
      have failed := retries.fails (count + 1) (Nat.le_add_left 1 count) (Nat.le_refl _)
      have twice : 2 * (count + 1) = 2 * count + 1 + 1 := by omega
      rw [twice, story, judging]
      simp [Plot.next, Decision.afterAttempt, failed, retries.left]

theorem ends_of_success (fresh : job.attemptCount = 0) (retries : job.Retries plan count)
    (success : (job.action (count + 1)).failed plan = []) :
    job.Ends plan ⟨job.key, .succeeded, min (count + 1) maxAttempts, false⟩
      (attempts (count + 1)) := by
  refine ⟨2 * count + 1 + 1, ?_⟩
  rw [story, story_judging (retries.story_ready fresh), success]
  simp [Plot.next, Decision.afterAttempt]

theorem ends_of_exhaustion (fresh : job.attemptCount = 0) (limited : job.maxRetries < maxAttempts)
    (fails : ∀ number, 1 ≤ number → number ≤ job.maxRetries + 1 →
      (job.action number).failed plan ≠ []) :
    ∃ made, job.Ends plan ⟨job.key, .abandoned, job.maxRetries + 1, job.hasCompensator⟩ made := by
  have retries : job.Retries plan job.maxRetries := by
    refine ⟨fun number first within => fails number first (Nat.le_succ_of_le within), ?_⟩
    exact Nat.min_le_left ..
  have judging := story_judging (retries.story_ready fresh)
  have failed := fails (job.maxRetries + 1) (Nat.le_add_left 1 _) (Nat.le_refl _)
  rw [Nat.min_eq_left limited] at judging
  have spent : ¬ job.maxRetries + 1 ≤ job.maxRetries := Nat.not_succ_le_self _
  cases present : job.hasCompensator with
  | true =>
      have reverting : (job.story plan (2 * job.maxRetries + 2)).1 = .reverting (job.maxRetries + 1)
          ((job.action (job.maxRetries + 1)).failed plan) := by
        rw [story, judging]
        simp [Plot.next, Decision.afterAttempt, failed, spent, present]
      have reverted : (job.story plan (2 * job.maxRetries + 3)).1 =
          .reverted (job.maxRetries + 1) := by
        rw [story, reverting]
        rfl
      have ended : (job.story plan (2 * job.maxRetries + 4)).1 =
          .ended ⟨job.key, .abandoned, job.maxRetries + 1, true⟩ := by
        rw [story, reverted]
        rfl
      exact ⟨_, _, Prod.ext ended rfl⟩
  | false =>
      have ended : (job.story plan (2 * job.maxRetries + 2)).1 =
          .ended ⟨job.key, .abandoned, job.maxRetries + 1, false⟩ := by
        rw [story, judging]
        simp [Plot.next, Decision.afterAttempt, failed, spent, present]
      exact ⟨_, _, Prod.ext ended rfl⟩

end Job

theorem Traced.counts {policy : RetryPolicy} {drive : Drive} {made : List JobCall}
    (traced : Traced (Drive.Heeds plan) policy job drive made) (endsBy : job.EndsBy plan last)
    (fresh : job.attemptCount = 0) : (drive.plot plan).Counts plan job last := by
  obtain ⟨turns, same⟩ := traced.story
  have counts := endsBy.counts fresh turns
  rwa [same] at counts

end KeyedJobs
