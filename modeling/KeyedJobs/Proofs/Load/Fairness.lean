import KeyedJobs.Proofs.Load.Returning

/-! # Failures are spread fairly

Whatever the percentage, just so many of a hundred attempts in a row fail, and just so many of a
hundred jobs in a row at the same attempt. So a job that may be retried as often as the percentage
says comes to an attempt that succeeds, and a load of such jobs abandons none.
-/

namespace KeyedJobs.Load

open Coordinator (Rehearsed)

variable {p : Profile} {config : Config} {s : Coordinator} {percent turns fuel : Nat}
  {stance : Stance}

namespace Profile

/-- The load can be retried until all its jobs have succeeded. -/
structure Generous (p : Profile) : Prop where
  below : p.failurePercent < 100
  allowed : p.failurePercent ≤ p.maxRetries
  /-- The attempts that jobs come to at most are rolled within 64 bits. -/
  fits : ∀ seq < p.jobs, Fits seq (p.failurePercent + 1)
  /-- A vector has room for the completions of an attempt. -/
  roomy : p.width ≤ mostCompletions

theorem Generous.lucky (generous : p.Generous) {seq : Nat} (inside : seq < p.jobs) :
    ∃ number, p.lucky? seq = some number ∧ number ≤ p.failurePercent + 1 :=
  exists_lucky? generous.below generous.allowed (generous.fits seq inside)

theorem Generous.bounded (generous : p.Generous) : p.Bounded where
  counted seq inside := by
    obtain ⟨number, lucky, soon⟩ := generous.lucky inside
    rw [last_of_lucky? lucky]
    exact Nat.le_trans soon (Nat.le_trans generous.below (by decide))
  roomy := generous.roomy

theorem Generous.succeeded (generous : p.Generous) : p.succeeded = p.jobs := by
  have all : p.succeeded = (List.range p.jobs).length := by
    apply List.countP_eq_length.mpr
    intro seq inside
    obtain ⟨number, lucky, -⟩ := generous.lucky (List.mem_range.mp inside)
    rw [lucky]
    rfl
  rw [all, List.length_range]

theorem Generous.abandoned (generous : p.Generous) : p.abandoned = 0 := by
  rw [Profile.abandoned, generous.succeeded, Nat.sub_self]

theorem Generous.abandoned_eq_zero (generous : p.Generous) {plan : Plan} {q : KeyQueue Ticket}
    {count : Nat} (rehearsed : Rehearsed plan (p.jobsUpTo count) s q) (within : count ≤ p.jobs) :
    s.monitor.abandoned = 0 := by
  refine Nat.le_zero.mp ((rehearsed.read_le .abandoned).trans_eq ?_)
  apply tally_eq_zero.mpr
  intro seq _
  by_cases ended : seq ∈ s.endings
  · obtain ⟨numbered, -, -⟩ := rehearsed.concluded_of_ended ended
    have inside := Nat.lt_of_lt_of_le (of_getElem?_jobsUpTo numbered).1 within
    obtain ⟨number, lucky, -⟩ := generous.lucky inside
    rw [dues_of_ended generous.bounded rehearsed within ended, weight_resolution, lucky]
    rfl
  · rw [rehearsed.recorded.charted.dues_of_unended ended]
    rfl

end Profile

/-- What it means that so many attempts of a hundred fail. -/
structure Fair (percent : Nat) : Prop where
  /-- Every attempt whose numbers fit is decided. -/
  decided {seq attempt : Nat} (fits : Fits seq attempt) :
    ∃ fails, attemptFails seq attempt percent = .ok fails
  /-- Of a hundred attempts of a job in a row, so many fail. -/
  attempts {seq first : Nat} (fits : Fits seq (first + 99)) :
    (List.range 100).countP (fun n => attemptFails seq (first + n) percent = .ok true) = percent
  /-- Of a hundred jobs in a row, so many fail at the same attempt. -/
  jobs {first attempt : Nat} (fits : Fits (first + 99) attempt) :
    (List.range 100).countP (fun n => attemptFails (first + n) attempt percent = .ok true) = percent
  /-- Of one attempt more than that in a row, some attempt succeeds. -/
  lucky {seq first : Nat} (below : percent < 100) (fits : Fits seq (first + percent)) :
    ∃ n ≤ percent, attemptFails seq (first + n) percent = .ok false
  /-- A load whose jobs may be retried so many times abandons none of them, in whatever order the
  threads take their turns. If its writes end, it returns. -/
  spares {p : Profile} {config : Config} (same : p.failurePercent = percent)
    (generous : p.Generous) (untimed : config.completionTimeout = none) :
    (p.report.monitor.counters.abandoned = 0 ∧
        p.report.monitor.counters.succeeded = p.jobs) ∧
      (∀ turns stance s, Running p config turns stance s → s.monitor.abandoned = 0 ∧
        ∀ report, stance = .returned report → report = p.report) ∧
      (p.writeLatency.ends = true →
        (∀ turns stance s, Running p config turns stance s → Returning p config turns stance s) ∧
        ∀ s, Coordinator.start config = .ok s → ∃ enough, ∀ fuel ≥ enough,
          ∃ run, (Run.begin s).load? p fuel = some (p.report, run))

/-- Every percentage is met exactly. -/
theorem fair_of_le (inRange : percent ≤ 100) : Fair percent where
  decided fits := ⟨_, attemptFails_of_fits fits percent⟩
  attempts fits := countP_attempts inRange fits
  jobs fits := countP_seqs inRange fits
  lucky below fits := exists_lucky below fits
  spares := by
    rintro p config rfl generous untimed
    have bounded := generous.bounded
    refine ⟨⟨generous.abandoned, generous.succeeded⟩, fun turns stance s running => ?_,
      fun ends => ⟨fun turns stance s => bounded.returning ends untimed, fun s started => ?_⟩⟩
    · obtain ⟨q, holds⟩ := Regime.holds (bounded.regime (fun _ => .success) untimed) running
      refine ⟨generous.abandoned_eq_zero holds.knows holds.steady.within, ?_⟩
      rintro report rfl
      exact bounded.reports untimed running
    · exact ⟨p.mostMoves config, fun fuel => bounded.load? ends untimed started⟩

/-- A quarter of the attempts fail, and five jobs have just as many retries as it takes. -/
theorem fair_of_quarter :
    let p : Profile := { keys := 2, jobs := 5, maxRetries := 25, failurePercent := 25 }
    let config := (Config.default .single).withWorkers 2
    let s := Coordinator.fresh config
    (p.failurePercent ≤ 100 ∧ Fits 4 (1 + 99) ∧ p.Generous ∧ config.completionTimeout = none ∧
        Coordinator.start config = .ok s) ∧
      Fair p.failurePercent ∧
      (List.range 100).countP (fun n => attemptFails 4 (1 + n) 25 = .ok true) = 25 ∧
      ∃ enough, ∀ fuel ≥ enough, ∃ run, (Run.begin s).load? p fuel = some (p.report, run) := by
  intro p config s
  have inRange : p.failurePercent ≤ 100 := by decide
  have last : Fits 4 (1 + 99) := by decide
  have generous : p.Generous := ⟨by decide, by decide, by decide, by decide⟩
  have untimed : config.completionTimeout = none := rfl
  have started : Coordinator.start config = .ok s := rfl
  have fair := fair_of_le inRange
  obtain ⟨-, -, returns⟩ := fair.spares rfl generous untimed
  exact ⟨⟨inRange, last, generous, untimed, started⟩, fair, fair.attempts last,
    (returns (by decide)).2 s started⟩

/-- However often the jobs of a load may be retried, one whose attempts start more writes than a
vector has room for is abandoned. -/
theorem abandoned_of_crowded_attempts :
    let p : Profile := { Profile.crowded with failurePercent := 1, maxRetries := 1 }
    let config := Config.default .single
    let s := Coordinator.fresh config
    (p.failurePercent ≤ p.maxRetries ∧ p.failurePercent < 100 ∧
        (∀ seq < p.jobs, Fits seq (p.failurePercent + 1)) ∧ config.completionTimeout = none ∧
        Coordinator.start config = .ok s) ∧
      ((Run.begin s).load? p 80).map (·.1.monitor.counters.abandoned) = some 1 := by
  intro p config s
  exact ⟨⟨by decide, by decide, by decide, rfl, rfl⟩, by decide +kernel⟩

end KeyedJobs.Load
