import KeyedJobs.Proofs.Load.Progress

/-! # A load returns its report

Without a completion timeout the rolls decide how the jobs of a load end. So however the threads take
turns, the load returns the report that its profile fixes.
-/

namespace KeyedJobs.Load

open Coordinator (Rehearsed)
open Stance (Holds)

variable {s : Coordinator} {p : Profile} {config : Config} {count turns fuel : Nat} {stance : Stance}
  {report : Report}

namespace Profile

theorem Bounded.timely (bounded : p.Bounded) (plan : Plan) (within : count ≤ p.jobs) :
    Timely plan p.last p.width (p.jobsUpTo count) where
  paced := p.paced_jobsUpTo count
  fresh := p.fresh_jobsUpTo count
  endsBy n job numbered := by
    obtain ⟨inside, rfl⟩ := of_getElem?_jobsUpTo numbered
    exact bounded.endsBy (Nat.lt_of_lt_of_le inside within)

/-- The rolls tell what becomes of each job. -/
def Bounded.regime (bounded : p.Bounded) (plan : Plan)
    (untimed : config.completionTimeout = none) : Regime p config where
  Knows count s q := Rehearsed plan (p.jobsUpTo count) s q
  last := p.last
  Reports report := report = p.report
  few := p.last_le
  fresh := ⟨.of_fresh config, .of_fresh config, .of_fresh config, .of_fresh config,
    .of_fresh plan config, untimed⟩
  move steady rehearsed inLine planned brings move :=
    brings ▸ rehearsed.of_transition (bounded.timely plan steady.within).apart inLine (planned plan)
      move
  endsBy steady rehearsed := rehearsed.endsBy (bounded.timely plan steady.within)
  reports steady rehearsed complete shown :=
    reportOf_eq bounded steady.ongoing rehearsed complete shown

end Profile

theorem Profile.Bounded.load? (bounded : p.Bounded) (ends : p.writeLatency.ends = true)
    (untimed : config.completionTimeout = none) (started : Coordinator.start config = .ok s)
    (enough : p.mostMoves config ≤ fuel) :
    ∃ run, (Run.begin s).load? p fuel = some (p.report, run) := by
  obtain ⟨report, run, turns, q, returned, holds⟩ :=
    Regime.load? (bounded.regime (fun _ => .success) untimed) ends started enough
  obtain rfl : report = p.report := holds.calls.2
  exact ⟨run, returned⟩

/-- What is certain of a load that is being run on a coordinator. -/
structure Returning (p : Profile) (config : Config) (turns : Nat) (stance : Stance)
    (s : Coordinator) : Prop where
  bounded : turns ≤ p.mostTurns config
  goesOn : (∀ report, stance ≠ .returned report) → GoesOn p stance s
  reports : ∀ report, stance = .returned report → report = p.report ∧ report.isConsistent = true

theorem Profile.Bounded.reports (bounded : p.Bounded) (untimed : config.completionTimeout = none)
    (running : Running p config turns (.returned report) s) : report = p.report := by
  obtain ⟨q, holds⟩ := Regime.holds (bounded.regime (fun _ => .success) untimed) running
  exact holds.calls.2

theorem Profile.Bounded.returning (bounded : p.Bounded) (ends : p.writeLatency.ends = true)
    (untimed : config.completionTimeout = none) (running : Running p config turns stance s) :
    Returning p config turns stance s := by
  obtain ⟨q, holds⟩ := Regime.holds (bounded.regime (fun _ => .success) untimed) running
  refine ⟨holds.turns_le, holds.goesOn ends, ?_⟩
  rintro report rfl
  obtain rfl := bounded.reports untimed running
  exact ⟨rfl, p.isConsistent_report⟩

/-- One job, with more writes than a vector has room for. -/
def Profile.crowded : Profile :=
  { jobs := 1, maxRetries := 0, failurePercent := 0, writesPerJob := 18446744073709551615 }

/-- One job, with writes that take longer than the clock lasts. -/
def Profile.endless : Profile :=
  { jobs := 1, maxRetries := 0, failurePercent := 0
    writeLatency := .ofParts 18446744073709551615 999999999 }

end KeyedJobs.Load
