import KeyedJobs.Proofs.Coordinator.Pacing
import KeyedJobs.Proofs.Load.Order
import KeyedJobs.Proofs.Load.Verdict

/-! # What a load comes to

When all jobs of a load have been brought and counted, the counters show how the rolls have decided,
no key is queued, and the jobs of each key have started in order. So the report on a load is fixed by
its profile.
-/

namespace KeyedJobs.Load

open Monitor (Counter)
open Coordinator (Ongoing Rehearsed)

namespace Profile

/-- How many jobs have an attempt without a failing write. -/
def succeeded (p : Profile) : Nat :=
  (List.range p.jobs).countP fun seq => (p.lucky? seq).isSome

def abandoned (p : Profile) : Nat := p.jobs - p.succeeded

/-- How often the job is retried: up to its first attempt without a failing write, or as often as it
may be. -/
def retries (p : Profile) (seq : Nat) : Nat :=
  match p.lucky? seq with
  | some number => number - 1
  | none => p.maxRetries

/-- The report on the load. -/
def report (p : Profile) : Report where
  monitor :=
    { counters :=
        { admitted := p.jobs
          succeeded := p.succeeded
          abandoned := p.abandoned
          retried := tally p.retries (List.range p.jobs)
          compensated := if p.withCompensator then p.abandoned else 0
          discarded := 0
          incomplete := 0 }
      queuedKeys := 0 }
  rejected := 0
  orderingViolations := 0

theorem isConsistent_report (p : Profile) : p.report.isConsistent = true := rfl

end Profile

variable {p : Profile} {plan : Plan} {jobs : List Job} {s : Coordinator} {q : KeyQueue Ticket}
  {seq count : Nat}

theorem keyed_jobsUpTo (p : Profile) (count : Nat) : keyed (p.jobsUpTo count) = List.range count := by
  rw [keyed, numbersOf, p.length_jobsUpTo, List.filter_eq_self]
  intro n member
  rw [Profile.getElem?_jobsUpTo (List.mem_range.mp member)]
  simp [p.keyOf_ne_empty]

theorem dues_of_ended (bounded : p.Bounded) (rehearsed : Rehearsed plan (p.jobsUpTo count) s q)
    (within : count ≤ p.jobs) (ended : seq ∈ s.endings) :
    (s.work seq).flatMap Event.dues = (Monitor.Change.finished (p.resolution seq)).adjustments := by
  obtain ⟨numbered, ends, work⟩ := rehearsed.concluded_of_ended ended
  obtain ⟨inside, rfl⟩ := Profile.of_getElem?_jobsUpTo numbered
  obtain ⟨made, ends'⟩ := bounded.ends plan (Nat.lt_of_lt_of_le inside within)
  obtain ⟨rfl, -⟩ := ends.unique ends'
  have kept : (p.job seq).ending (p.resolution seq) = .ok (p.resolution seq) := by
    rw [Job.ending, p.dropPanic_job]
  rw [work, List.flatMap_append, Coordinator.dues_called, kept]
  exact List.append_nil _

theorem read_monitor (bounded : p.Bounded)
    (rehearsed : Rehearsed plan (p.jobsUpTo p.jobs) s q) (complete : s.Complete)
    (counter : Counter) : counter.read s.monitor = tally (fun seq =>
      tally counter.weight (Monitor.Change.finished (p.resolution seq)).adjustments)
        (List.range p.jobs) := by
  have all := rehearsed.recorded.charted.balanced.perm_endings (rehearsed.placed complete)
  rw [rehearsed.admissions_eq complete, keyed_jobsUpTo] at all
  rw [rehearsed.counter complete, keyed_jobsUpTo]
  apply tally_congr
  intro seq member
  rw [dues_of_ended bounded rehearsed (Nat.le_refl _) (all.mem_iff.mpr member)]

theorem countP_unlucky (p : Profile) :
    (List.range p.jobs).countP (fun seq => (p.lucky? seq).isNone) = p.abandoned := by
  have split := List.length_eq_countP_add_countP (fun seq => (p.lucky? seq).isSome)
    (l := List.range p.jobs)
  simp only [List.length_range, Bool.not_eq_true, Option.isSome_eq_false_iff,
    Bool.decide_eq_true] at split
  rw [Profile.abandoned, Profile.succeeded]
  omega

theorem weight_resolution (p : Profile) (seq : Nat) (counter : Counter) :
    tally counter.weight (Monitor.Change.finished (p.resolution seq)).adjustments =
      match counter with
      | .succeeded => if (p.lucky? seq).isSome then 1 else 0
      | .abandoned => if (p.lucky? seq).isNone then 1 else 0
      | .retried => p.retries seq
      | .compensated => if p.withCompensator then if (p.lucky? seq).isNone then 1 else 0 else 0
      | .discarded => 0 := by
  rw [Counter.weight_finished, Profile.resolution, Profile.retries]
  cases p.lucky? seq <;> cases counter <;> simp

theorem monitor_eq (bounded : p.Bounded)
    (rehearsed : Rehearsed plan (p.jobsUpTo p.jobs) s q) (complete : s.Complete) :
    s.monitor = p.report.monitor.counters := by
  refine Monitor.eq_of_counters ?_ complete.idle ?_
  · rw [rehearsed.admitted complete, keyed_jobsUpTo, List.length_range]
    rfl
  · intro counter
    rw [read_monitor bounded rehearsed complete]
    simp only [weight_resolution]
    cases counter with
    | succeeded => exact tally_countP _ _
    | abandoned => exact (tally_countP _ _).trans (countP_unlucky p)
    | retried => rfl
    | compensated =>
        change _ = if p.withCompensator then p.abandoned else 0
        cases p.withCompensator with
        | true => exact (tally_countP _ _).trans (countP_unlucky p)
        | false => exact tally_eq_zero.mpr fun _ _ => rfl
    | discarded => exact tally_eq_zero.mpr fun _ _ => rfl

/-- The attempt that starts in the event. -/
def start? : Event → Option (String × Nat)
  | .called serial key (.attempt _) => some (key, serial)
  | _ => none

theorem starts_eq (s : Coordinator) : Run.starts s 0 = s.history.toList.filterMap start? := by
  unfold Run.starts
  rw [Array.extract_size]
  rfl

theorem call_of_start? {event : Event} {key : String} {serial : Nat}
    (starts : start? event = some (key, serial)) :
    ∃ call, event.callOn? key = some (serial, call) := by
  unfold start? at starts
  split at starts
  · cases starts
    exact ⟨_, if_pos rfl⟩
  · cases starts

theorem pairwise_callsOn (ongoing : Ongoing (p.jobsUpTo p.jobs) s q) (complete : s.Complete)
    (key : String) : (s.callsOn key).Pairwise fun earlier later => earlier.1 ≤ later.1 := by
  have serial := ongoing.recorded.serial ongoing.sound.custody key
  rw [serial.calls, ongoing.enrolled.admissionsOn_eq ongoing.recorded complete, keyed_jobsUpTo,
    List.pairwise_flatMap]
  constructor
  · intro n _
    apply List.pairwise_map.mpr
    exact List.pairwise_of_forall fun _ _ => Nat.le_refl n
  · apply (List.pairwise_lt_range.filter _).imp
    intro n n' less call member call' member'
    obtain ⟨_, _, rfl⟩ := List.mem_map.mp member
    obtain ⟨_, _, rfl⟩ := List.mem_map.mp member'
    exact Nat.le_of_lt less

theorem inOrder_starts (ongoing : Ongoing (p.jobsUpTo p.jobs) s q) (complete : s.Complete) :
    InOrder (Run.starts s 0) := by
  rw [InOrder, starts_eq, List.pairwise_filterMap, List.pairwise_iff_getElem]
  rintro i j inside inside' before ⟨key, n⟩ starts ⟨_, n'⟩ starts' rfl
  obtain ⟨call, called⟩ := call_of_start? starts
  obtain ⟨call', called'⟩ := call_of_start? starts'
  have sorted := pairwise_callsOn ongoing complete key
  rw [Coordinator.callsOn, List.pairwise_filterMap, List.pairwise_iff_getElem] at sorted
  exact sorted i j inside inside' before _ called _ called'

/-- The report on a load that was run to its end, with the counters that can be read then. -/
def reportOf (rejected : Nat) (s : Coordinator) (monitor : Snapshot) : Report :=
  ⟨monitor, rejected, (OrderLedger.empty.recordEach (Run.starts s 0)).violations⟩

/-- What a report says of a load whose jobs have all been resolved in order: nothing was turned away,
nothing overtaken and nothing left, and each job has succeeded or was abandoned. -/
structure Report.Clean (p : Profile) (report : Report) : Prop where
  rejected : report.rejected = 0
  inOrder : report.orderingViolations = 0
  complete : report.monitor.counters.incomplete = 0
  admitted : report.monitor.counters.admitted = p.jobs
  resolved : report.monitor.counters.succeeded + report.monitor.counters.abandoned = p.jobs

theorem Report.Clean.isConsistent {report : Report} (clean : report.Clean p) :
    report.isConsistent = true := by
  simp [Report.isConsistent, clean.inOrder, clean.complete]

theorem snapshot_eq (ongoing : Ongoing jobs s q) (complete : s.Complete) {monitor : Snapshot}
    (shown : s.snapshot = .ok monitor) : monitor = ⟨s.monitor, 0⟩ := by
  rw [ongoing.enrolled.snapshot ongoing.sound complete] at shown
  exact (Except.ok.inj shown).symm

theorem clean_reportOf (ongoing : Ongoing (p.jobsUpTo p.jobs) s q) (complete : s.Complete)
    {monitor : Snapshot} (shown : s.snapshot = .ok monitor) : (reportOf 0 s monitor).Clean p := by
  have admitted := ongoing.enrolled.admitted ongoing.sound complete
  rw [keyed_jobsUpTo, List.length_range] at admitted
  obtain ⟨settled, -⟩ :=
    ongoing.sound.ledger.settled ongoing.sound.placed complete.idle complete.returned
  obtain rfl := snapshot_eq ongoing complete shown
  exact ⟨rfl, OrderLedger.violations_of_inOrder (inOrder_starts ongoing complete), complete.idle,
    admitted, settled ▸ admitted⟩

theorem reportOf_eq (bounded : p.Bounded) (ongoing : Ongoing (p.jobsUpTo p.jobs) s q)
    (rehearsed : Rehearsed plan (p.jobsUpTo p.jobs) s q) (complete : s.Complete)
    {monitor : Snapshot} (shown : s.snapshot = .ok monitor) : reportOf 0 s monitor = p.report := by
  obtain rfl := snapshot_eq ongoing complete shown
  rw [reportOf, monitor_eq bounded rehearsed complete,
    OrderLedger.violations_of_inOrder (inOrder_starts ongoing complete)]
  rfl

end KeyedJobs.Load
