import KeyedJobs.Proofs.Load.Running

/-! # A load goes on

If the writes of a load end, then however the threads take turns, somebody can take the next turn
until the load has returned. If the workers go before the calls and time passes only when nobody can
move, it is known how many moves are enough for that.
-/

namespace KeyedJobs

theorem Stage.Enrolling.admitted_or_canStep {stage : Stage} (enrolling : stage.Enrolling)
    (s : Coordinator) : stage = .answered .admitted ∨ s.canStepCall stage = true := by
  cases enrolling with
  | admitted => exact .inl rfl
  | _ => exact .inr rfl

namespace Load

open Coordinator (Lively of_nextStep?)
open Stance (Holds)

variable {s t : Coordinator} {q : KeyQueue Ticket} {p : Profile} {config : Config}
  {regime : Regime p config} {turns next seq rejected fuel : Nat} {stance stance' : Stance}
  {answer : Answer}

theorem answer?_of_only (only : s.calls = [.answered answer]) : s.answer? 0 = some answer := by
  rw [Coordinator.answer?, only]
  rfl

/-- Some thread can take a turn, now or when time has passed. -/
def GoesOn (p : Profile) (stance : Stance) (s : Coordinator) : Prop :=
  ∃ instant stance' t, s.now ≤ instant ∧ Turn p stance (s.move (.elapse instant)) stance' t

theorem GoesOn.now (turn : Turn p stance s stance' t) : GoesOn p stance s :=
  ⟨s.now, stance', t, Nat.le_refl _, turn⟩

theorem GoesOn.of_lively (stance : Stance) (lively : s.Lively) : GoesOn p stance s := by
  cases lively with
  | now next =>
      obtain ⟨possible, steps⟩ := of_nextStep? next
      exact .now (.step _ possible steps)
  | later _ _ ahead next =>
      obtain ⟨possible, steps⟩ := of_nextStep? next
      exact ⟨_, stance, _, Nat.le_of_lt ahead, .step _ possible steps⟩

/-- Whether the thread is in a call. -/
def Stance.isCalling : Stance → Bool
  | .enqueueing .. | .waiting _ => true
  | .bringing .. | .returned _ => false

namespace Stance.Holds

theorem lively (holds : Holds regime turns stance s q) (ends : p.writeLatency.ends = true)
    (calling : stance.isCalling = true) (unanswered : s.answer? 0 = none) : s.Lively := by
  obtain ⟨steady, -, calls, -⟩ := holds
  cases stance with
  | bringing | returned => cases calling
  | enqueueing =>
      obtain ⟨⟨stage, only, enrolling⟩, -⟩ := calls
      rcases enrolling.admitted_or_canStep s with rfl | possible
      · rw [answer?_of_only only] at unanswered
        cases unanswered
      · exact .of_call (only ▸ List.mem_singleton.mpr rfl) possible
  | waiting =>
      obtain ⟨⟨stage, only, idling⟩, -⟩ := calls
      cases idling with
      | idle =>
          rw [answer?_of_only only] at unanswered
          cases unanswered
      | waits =>
          by_cases zero : s.monitor.incomplete = 0
          · have possible : s.canStepCall (.idling none) = true := by
              simp [Coordinator.canStepCall, Monitor.isIdle, zero]
            exact .of_call (only ▸ List.mem_singleton.mpr rfl) possible
          · have patient : ∀ stage ∈ s.calls, stage.wakeAt? = none := by
              intro stage present
              rw [only] at present
              obtain rfl := List.mem_singleton.mp present
              rfl
            exact steady.ongoing.lively (Profile.timed_jobsUpTo ends _) steady.shut steady.owned
              steady.staffed patient zero

theorem counters (holds : Holds regime turns stance s q) :
    ∃ monitor, (s.move (.leave 0)).snapshot = .ok monitor := by
  refine ⟨⟨s.monitor, q.keyCount⟩, ?_⟩
  change s.snapshot = _
  rw [Coordinator.snapshot, holds.steady.ongoing.sound.custody.sound]
  rfl

theorem goesOn (holds : Holds regime turns stance s q) (ends : p.writeLatency.ends = true)
    (going : ∀ report, stance ≠ .returned report) : GoesOn p stance s := by
  cases stance with
  | returned report => exact absurd rfl (going report)
  | bringing next rejected =>
      have within : next ≤ p.jobs := holds.steady.within
      rcases Nat.lt_or_eq_of_le within with left | rfl
      · exact .now (.bring left)
      · exact .now .wait
  | enqueueing seq rejected =>
      cases answered : s.answer? 0 with
      | some answer => exact .now (.proceed answered)
      | none => exact .of_lively _ (holds.lively ends rfl answered)
  | waiting rejected =>
      cases answered : s.answer? 0 with
      | some answer =>
          obtain ⟨monitor, counters⟩ := holds.counters
          exact .now (.finish answered counters)
      | none => exact .of_lively _ (holds.lively ends rfl answered)

theorem turns_le (holds : Holds regime turns stance s q) : turns ≤ p.mostTurns config := by
  have left := holds.left
  omega

/-- The moves that are scheduled go on until the call is answered. Between two steps time passes at
most once. -/
theorem run (holds : Holds regime turns stance s q) (ends : p.writeLatency.ends = true)
    (calling : stance.isCalling = true)
    (enough : 2 * (p.mostTurns config - turns) + (if s.nextStep?.isSome then 0 else 1) < fuel) :
    let t := s.run (fun s => (s.answer? 0).isSome) none fuel
    ∃ turns' q' answer, Holds regime turns' stance t q' ∧ t.answer? 0 = some answer := by
  induction fuel generalizing turns s q with
  | zero => exact absurd enough (Nat.not_lt_zero _)
  | succ fuel ih =>
      unfold Coordinator.run
      cases answered : s.answer? 0 with
      | some answer => exact ⟨turns, q, answer, holds, answered⟩
      | none =>
          obtain ⟨m, scheduled, kind⟩ := (holds.lively ends calling answered).nextMove?
          rw [scheduled]
          rcases kind with ⟨possible, steps⟩ | ⟨due, rfl, later, still, wakes⟩
          · obtain ⟨q', holds'⟩ := holds.step possible steps
            have bound := holds'.turns_le
            refine ih holds' ?_
            split <;> omega
          · obtain ⟨q', holds'⟩ := holds.pass later
            refine ih holds' ?_
            rw [still] at enough
            rw [if_pos (Option.isSome_iff_ne_none.mpr wakes)]
            simp only [Option.isSome_none, Bool.false_eq_true, if_false] at enough
            omega

end Stance.Holds

/-- As many moves as each call of the load is given in a run of it. -/
def Profile.mostMoves (p : Profile) (config : Config) : Nat := 2 * p.mostTurns config + 2

theorem Stance.Holds.answers (holds : Holds regime turns stance s q)
    (ends : p.writeLatency.ends = true) (calling : stance.isCalling = true)
    (enough : p.mostMoves config ≤ fuel) :
    let t := s.run (fun s => (s.answer? 0).isSome) none fuel
    ∃ turns' q' answer, Holds regime turns' stance t q' ∧ t.answer? 0 = some answer := by
  refine holds.run ends calling (Nat.lt_of_lt_of_le ?_ enough)
  unfold Profile.mostMoves
  split <;> omega

namespace Run

variable {run : Run}

theorem perform?_of_answer (request : Request) (alone : run.coordinator.calls = [])
    (answered : ((run.coordinator.move (.begin request)).run (fun s => (s.answer? 0).isSome) none
      fuel).answer? 0 = some answer) :
    ∃ run', run.perform? request fuel = some (answer, run') ∧ run'.rejected = run.rejected ∧
      run'.coordinator = ((run.coordinator.move (.begin request)).run
        (fun s => (s.answer? 0).isSome) none fuel).move (.leave 0) := by
  simp [perform?, Coordinator.perform?, alone, answered]

theorem enqueue?_of_holds
    (holds : Holds regime turns (.bringing next run.rejected) run.coordinator q)
    (ends : p.writeLatency.ends = true) (left : next < p.jobs)
    (enough : p.mostMoves config ≤ fuel) :
    ∃ run' turns' q', run.enqueue? p fuel next = some run' ∧
      Holds regime turns' (.bringing (next + 1) run'.rejected) run'.coordinator q' := by
  obtain ⟨q₁, holds₁⟩ := holds.bring left
  obtain ⟨turns₂, q₂, answer, holds₂, answered⟩ := holds₁.answers ends rfl enough
  obtain ⟨q₃, holds₃⟩ := holds₂.proceed answered
  obtain ⟨run', performed, rejected, coordinator⟩ :=
    perform?_of_answer (.enqueue (p.job next)) holds.calls.1 answered
  have none_rejected : run.rejected + answer.rejections = 0 := holds₃.calls.2
  have rejections : answer.rejections = 0 := (Nat.add_eq_zero_iff.mp none_rejected).2
  refine ⟨run', turns₂ + 1, q₃, ?_, ?_⟩
  · rw [enqueue?, performed]
    cases answer with
    | rejected => cases rejections
    | _ => rfl
  · rw [rejections] at holds₃
    rw [coordinator, rejected]
    exact holds₃

theorem foldlM_enqueue? (holds : Holds regime turns (.bringing 0 run.rejected) run.coordinator q)
    (ends : p.writeLatency.ends = true) (within : next ≤ p.jobs)
    (enough : p.mostMoves config ≤ fuel) :
    ∃ run' turns' q', (List.range next).foldlM (enqueue? p fuel) run = some run' ∧
      Holds regime turns' (.bringing next run'.rejected) run'.coordinator q' := by
  induction next with
  | zero => exact ⟨run, turns, q, rfl, holds⟩
  | succ next ih =>
      obtain ⟨run₁, turns₁, q₁, brought, holds₁⟩ := ih (Nat.le_of_succ_le within)
      obtain ⟨run₂, turns₂, q₂, enqueued, holds₂⟩ := enqueue?_of_holds holds₁ ends within enough
      refine ⟨run₂, turns₂, q₂, ?_, holds₂⟩
      rw [List.range_succ, List.foldlM_append, brought]
      simpa using enqueued

end Run

open Run (foldlM_enqueue? perform?_of_answer)

/-- With so many moves for each call, the load returns on a fresh coordinator. -/
theorem Regime.load? (regime : Regime p config) (ends : p.writeLatency.ends = true)
    (started : Coordinator.start config = .ok s) (enough : p.mostMoves config ≤ fuel) :
    ∃ report run turns q, (Run.begin s).load? p fuel = some (report, run) ∧
      Holds regime turns (.returned report) run.coordinator q := by
  have holds : Holds regime 0 (.bringing 0 (Run.begin s).rejected) (Run.begin s).coordinator .empty :=
    .start regime started
  obtain ⟨run₁, turns₁, q₁, brought, holds₁⟩ :=
    foldlM_enqueue? holds ends (Nat.le_refl p.jobs) enough
  obtain ⟨q₂, holds₂⟩ := holds₁.wait
  obtain ⟨turns₃, q₃, answer, holds₃, answered⟩ := holds₂.answers ends rfl enough
  obtain ⟨run₂, performed, rejected, coordinator⟩ :=
    perform?_of_answer (.waitUntilIdle none) holds₁.calls.1 answered
  obtain ⟨monitor, counters⟩ := holds₃.counters
  obtain ⟨q₄, holds₄⟩ := holds₃.finish answered counters
  rw [← coordinator] at counters holds₄
  have fresh : s.brought = 0 ∧ s.history.size = 0 := by
    obtain rfl := Coordinator.start_eq_ok started
    exact ⟨rfl, rfl⟩
  refine ⟨_, { run₂ with remarks := OrderLedger.empty.remarks (Run.starts run₂.coordinator 0) },
    _, q₄, ?_, holds₄⟩
  unfold Run.load?
  simp only [Run.begin] at brought
  simp [Run.begin, brought, performed, counters, fresh, Except.toOption, rejected, reportOf]

end Load

end KeyedJobs
