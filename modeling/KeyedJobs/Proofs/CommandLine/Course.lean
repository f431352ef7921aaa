import KeyedJobs.CommandLine.Run
import KeyedJobs.Proofs.Load.Progress

/-! # The course of the program

Under settings that hold, the program runs its load, finishes the coordinator and exits. However its
threads take turns, it exits after a number of turns that is known beforehand, and with a report on
jobs that have all been resolved in order.
-/

namespace KeyedJobs

open Coordinator (ClosingDown of_nextStep?)
open Load (Profile Regime Report Run Stance)

variable {s t : Coordinator} {q : KeyQueue Ticket} {p : Profile} {config : Config}
  {turns fuel : Nat}

namespace Load

/-- Where retries can be counted, no job makes more attempts than it has retries and one, and all are
resolved in order. -/
def Profile.limitedRegime (limited : p.maxRetries < maxAttempts) : Regime p config where
  Knows _ _ _ := True
  last _ := p.maxRetries + 1
  Reports := Report.Clean p
  few _ := Nat.le_refl _
  fresh := trivial
  move _ _ _ _ _ _ := trivial
  endsBy steady _ := by
    refine steady.ongoing.recorded.charted.endsBy (p.fresh_jobsUpTo _) ?_ limited
    intro job member
    obtain ⟨seq, -, rfl⟩ := Profile.mem_jobsUpTo member
    exact Nat.le_of_eq (p.maxRetries_job seq)
  reports steady _ complete shown := clean_reportOf steady.ongoing complete shown

end Load

namespace CommandLine

/-- How the program ends after its load. -/
def endingOf (config : Config) (report : Report) : Ending :=
  .finished report ["Starting jobcoord with " ++ config.describe.inline, "Stopping jobcoord"]

/-- How far the thread has come that runs the program. -/
inductive Position where
  | loading (stance : Stance)
  /-- In the call that finishes the coordinator. -/
  | finishing (report : Report)
  | exited (ending : Ending)

/-- A turn of some thread: of the one that runs the program, or a step of a worker or of a call. -/
inductive Turn (p : Profile) (config : Config) :
    Position → Coordinator → Position → Coordinator → Prop where
  | load {stance stance' s t} (turn : Load.Turn p stance s stance' t) :
      Turn p config (.loading stance) s (.loading stance') t
  | finish {report s} :
      Turn p config (.loading (.returned report)) s (.finishing report)
        (s.move (.begin .waitUntilFinished))
  | step {report s} (m : Coordinator.Move) (possible : s.canMove m = true)
      (steps : m.isStep = true) :
      Turn p config (.finishing report) s (.finishing report) (s.move m)
  | exit {report s answer} (answered : s.answer? 0 = some answer) :
      Turn p config (.finishing report) s (.exited (endingOf config report)) (s.move (.leave 0))

/-- The program has been started with these settings, and its threads have taken so many turns. -/
inductive Course (p : Profile) (config : Config) : Nat → Position → Coordinator → Prop where
  | start {s : Coordinator} (started : Coordinator.start config = .ok s) :
      Course p config 0 (.loading (.bringing 0 0)) s
  | turn {turns position s position' t} (course : Course p config turns position s)
      (turn : Turn p config position s position' t) : Course p config (turns + 1) position' t
  | pass {turns position s} (instant : Instant) (course : Course p config turns position s)
      (later : s.now ≤ instant) : Course p config turns position (s.move (.elapse instant))

/-- Some thread can take a turn, now or when time has passed. -/
def GoesOn (p : Profile) (config : Config) (position : Position) (s : Coordinator) : Prop :=
  ∃ instant position' t, s.now ≤ instant ∧
    Turn p config position (s.move (.elapse instant)) position' t

variable {position position' : Position} {stance : Stance}

theorem GoesOn.now (turn : Turn p config position s position' t) : GoesOn p config position s :=
  ⟨s.now, position', t, Nat.le_refl _, turn⟩

theorem GoesOn.of_load (goesOn : Load.GoesOn p stance s) : GoesOn p config (.loading stance) s := by
  obtain ⟨instant, stance', t, later, turn⟩ := goesOn
  exact ⟨instant, _, t, later, .load turn⟩

/-- What is certain at each position, and how many turns are still to be taken. Ten of them are those
of finishing when there is nothing left to do. -/
inductive Position.Holds (regime : Regime p config) (turns : Nat) :
    Position → Coordinator → KeyQueue Ticket → Prop where
  | loading {stance : Stance} {s : Coordinator} {q : KeyQueue Ticket}
      (holds : Stance.Holds regime turns stance s q) :
      Holds regime turns (.loading stance) s q
  | finishing {report s q} (reports : regime.Reports report) (closing : ClosingDown s q)
      (left : turns + s.effort q ≤ p.mostTurns config + 9) :
      Holds regime turns (.finishing report) s q
  | exited {report s q} (reports : regime.Reports report) (left : turns ≤ p.mostTurns config + 10) :
      Holds regime turns (.exited (endingOf config report)) s q

variable {regime : Regime p config} {report : Report}

theorem effort_of_returned (holds : Stance.Holds regime turns (.returned report) s q) :
    turns + s.effort q ≤ p.mostTurns config := by
  have spent := holds.left
  have less : s.effort q ≤ s.toil regime.last p.width (p.maxRetries + 1) q := by
    unfold Coordinator.toil
    exact Nat.le_add_right_of_le (Nat.le_mul_of_pos_left _ (Nat.succ_pos _))
  omega

theorem closingDown_of_returned (holds : Stance.Holds regime turns (.returned report) s q) :
    ∃ q', ClosingDown (s.move (.begin .waitUntilFinished)) q' ∧
      (s.move (.begin .waitUntilFinished)).effort q' = s.effort q + 8 := by
  obtain ⟨⟨uncalled, zero⟩, -⟩ := holds.calls
  have possible : s.canMove (.begin .waitUntilFinished) = true := by
    simp [Coordinator.canMove, holds.steady.owned]
  obtain ⟨q', move⟩ := holds.steady.ongoing.sound.custody.transition possible
  exact ⟨q', ClosingDown.of_enter holds.steady.ongoing.sound zero uncalled move⟩

namespace Position.Holds

theorem turn (holds : position.Holds regime turns s q)
    (turn : Turn p config position s position' t) : ∃ q', position'.Holds regime (turns + 1) t q' := by
  cases turn with
  | load turn =>
      cases holds with
      | loading holds =>
          obtain ⟨q', holds'⟩ := holds.turn turn
          exact ⟨q', .loading holds'⟩
  | finish =>
      cases holds with
      | loading holds =>
          have less := effort_of_returned holds
          obtain ⟨q', closing, effort⟩ := closingDown_of_returned holds
          exact ⟨q', .finishing holds.calls.2 closing (by omega)⟩
  | step m possible steps =>
      cases holds with
      | finishing reports closing left =>
          obtain ⟨q', closing', less⟩ := closing.step possible steps
          exact ⟨q', .finishing reports closing' (by omega)⟩
  | exit =>
      cases holds with
      | finishing reports _ left => exact ⟨q, .exited reports (by omega)⟩

theorem pass (holds : position.Holds regime turns s q) {instant : Instant}
    (later : s.now ≤ instant) : ∃ q', position.Holds regime turns (s.move (.elapse instant)) q' := by
  cases holds with
  | loading holds =>
      obtain ⟨q', holds'⟩ := holds.pass later
      exact ⟨q', .loading holds'⟩
  | finishing reports closing left =>
      obtain ⟨q', closing', same⟩ := closing.pass later
      exact ⟨q', .finishing reports closing' (same ▸ left)⟩
  | exited reports left => exact ⟨q, .exited reports left⟩

theorem turns_le (holds : position.Holds regime turns s q) : turns ≤ p.mostTurns config + 10 := by
  cases holds with
  | loading holds => exact Nat.le_add_right_of_le holds.turns_le
  | finishing _ _ left => omega
  | exited _ left => exact left

theorem goesOn (holds : position.Holds regime turns s q) (ends : p.writeLatency.ends = true)
    (going : ∀ ending, position ≠ .exited ending) : GoesOn p config position s := by
  cases holds with
  | exited => exact absurd rfl (going _)
  | @loading stance _ _ holds =>
      cases stance with
      | returned report => exact .now .finish
      | bringing | enqueueing | waiting => exact .of_load (holds.goesOn ends (fun _ => nofun))
  | finishing _ closing =>
      cases answered : s.answer? 0 with
      | some answer => exact .now (.exit answered)
      | none =>
          obtain ⟨m, next⟩ := closing.exists_nextStep? answered
          obtain ⟨possible, steps⟩ := of_nextStep? next
          exact .now (.step m possible steps)

end Position.Holds

theorem Course.holds (regime : Regime p config) (course : Course p config turns position s) :
    ∃ q, position.Holds regime turns s q := by
  induction course with
  | start started => exact ⟨_, .loading (.start regime started)⟩
  | turn course turn ih =>
      obtain ⟨q, holds⟩ := ih
      exact holds.turn turn
  | pass instant course later ih =>
      obtain ⟨q, holds⟩ := ih
      exact holds.pass later

/-- The program has run its load under these settings, has printed a report on jobs that have all been
resolved in order, and exits without a complaint. -/
structure Ending.Successful (p : Profile) (config : Config) (ending : Ending) : Prop where
  code : ending.code = 0
  printed : ∃ report : Report, ending.printed = .report report ∧ report.Clean p
  log : ending.log =
    ["Starting jobcoord with " ++ config.describe.inline, "Stopping jobcoord"]
  complaint : ending.complaint = none

theorem successful_endingOf (clean : report.Clean p) :
    (endingOf config report).Successful p config := by
  rw [endingOf, Ending.finished, if_pos clean.isConsistent]
  exact ⟨rfl, ⟨report, rfl, clean⟩, rfl, rfl⟩

/-- What is certain of the program while it runs. -/
structure Orderly (p : Profile) (config : Config) (turns : Nat) (position : Position)
    (s : Coordinator) : Prop where
  bounded : turns ≤ p.mostTurns config + 10
  goesOn : (∀ ending, position ≠ .exited ending) → GoesOn p config position s
  exits : ∀ ending, position = .exited ending → ending.Successful p config

theorem Course.orderly (course : Course p config turns position s)
    (limited : p.maxRetries < maxAttempts) (ends : p.writeLatency.ends = true) :
    Orderly p config turns position s := by
  obtain ⟨q, holds⟩ := course.holds (Profile.limitedRegime limited)
  refine ⟨holds.turns_le, holds.goesOn ends, ?_⟩
  rintro ending rfl
  cases holds with
  | exited clean => exact successful_endingOf clean

theorem start_of_valid (valid : config.validate = .ok ()) :
    Coordinator.start config = .ok (Coordinator.fresh config) := by
  rw [Coordinator.start, valid]
  rfl

theorem runLoad?_of_regime (regime : Regime p config) (ends : p.writeLatency.ends = true)
    (valid : config.validate = .ok ()) (enough : p.mostMoves config + 10 ≤ fuel) :
    ∃ report, regime.Reports report ∧ runLoad? config p fuel = some (endingOf config report) := by
  have started := start_of_valid valid
  obtain ⟨report, run, turns, q, loaded, holds⟩ :=
    regime.load? ends started (Nat.le_of_add_right_le enough)
  have less := effort_of_returned holds
  obtain ⟨q', closing, effort⟩ := closingDown_of_returned holds
  have enough' : (run.coordinator.move (.begin .waitUntilFinished)).effort q' < fuel := by
    rw [effort]
    unfold Profile.mostMoves at enough
    omega
  obtain ⟨answer, answered⟩ := Option.isSome_iff_exists.mp (closing.run enough')
  obtain ⟨run', performed, -⟩ :=
    Run.perform?_of_answer .waitUntilFinished holds.calls.1.1 answered
  refine ⟨report, holds.calls.2, ?_⟩
  simp [runLoad?, started, loaded, performed, endingOf]

end CommandLine

end KeyedJobs
