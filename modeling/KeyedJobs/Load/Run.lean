import KeyedJobs.Coordinator.Schedule
import KeyedJobs.Load.OrderLedger
import KeyedJobs.Load.Profile

/-! # Running a load

The jobs of a load are enqueued one after the other, and when all are resolved a report is made of
the counters and of the order in which attempts started.
-/

namespace KeyedJobs.Load

structure Report where
  monitor : Snapshot
  /-- How many jobs were not admitted. -/
  rejected : Nat
  /-- Attempts that started after an attempt of a later job of the same key. -/
  orderingViolations : Nat
  deriving Repr, DecidableEq

namespace Report

/-- Whether the keys' order was kept and no job was left. -/
def isConsistent (report : Report) : Bool :=
  report.orderingViolations = 0 && report.monitor.counters.incomplete = 0

/-- The report as text, with the time that the load took. -/
def render (report : Report) (elapsedMs : Nat) : String :=
  let counters := report.monitor.counters
  let member (indent name : String) (value : Nat) : String :=
    indent ++ "\"" ++ name ++ "\": " ++ toString value
  let monitor := [("admitted", counters.admitted), ("succeeded", counters.succeeded),
    ("abandoned", counters.abandoned), ("retried", counters.retried),
    ("compensated", counters.compensated), ("discarded", counters.discarded),
    ("incomplete", counters.incomplete), ("queued_keys", report.monitor.queuedKeys)]
  let inner := ",\n".intercalate (monitor.map fun (name, value) => member "    " name value)
  ",\n".intercalate
    ["\x7b\n  \"monitor\": \x7b\n" ++ inner ++ "\n  \x7d",
      member "  " "rejected" report.rejected,
      member "  " "ordering_violations" report.orderingViolations,
      member "  " "elapsed_ms" elapsedMs] ++ "\n\x7d"

end Report

/-- A coordinator on which a load is run. -/
structure Run where
  coordinator : Coordinator
  rejected : Nat
  /-- What the calling thread has logged. -/
  log : Array LogLine
  /-- What the jobs have logged about the order of their starts. -/
  remarks : List LogLine

namespace Run

/-- A coordinator before the load, with what was logged when it was made. -/
def begin (coordinator : Coordinator) : Run :=
  ⟨coordinator, 0, (coordinator.callerLog 0).toArray, []⟩

/-- Makes a call, which takes at most `fuel` moves. There is no run after a call that blocks for
good. -/
def perform? (run : Run) (request : Request) (fuel : Nat := Coordinator.enoughMoves) :
    Option (Answer × Run) :=
  let ⟨coordinator, rejected, log, remarks⟩ := run
  let since := coordinator.log.size
  (coordinator.perform? request fuel).map fun (answer, coordinator) =>
    (answer, ⟨coordinator, rejected, log ++ coordinator.callerLog since, remarks⟩)

/-- Enqueues a job of a load. -/
def enqueue? (p : Profile) (fuel : Nat) (run : Run) (seq : Nat) : Option Run :=
  (run.perform? (.enqueue (p.job seq)) fuel).map fun (answer, run) =>
    match answer with
    | .rejected error =>
        let line := .warn s!"Job {seq} for {p.keyOf seq} not admitted: {error.text}"
        { run with rejected := run.rejected + 1, log := run.log.push line }
    | _ => run

/-- The attempts that have started, by their jobs' keys and numbers, from a position in the history
on. -/
def starts (s : Coordinator) (since : Nat) : List (String × Nat) :=
  (s.history.extract since s.history.size).toList.filterMap fun
    | .called serial key (.attempt _) => some (key, serial)
    | _ => none

/-- Runs a load to its end, each call taking at most `fuel` moves, and reports on it. Jobs' numbers
start with zero for the first job of the load. -/
def load? (p : Profile) (run : Run) (fuel : Nat := Coordinator.enoughMoves) :
    Option (Report × Run) := do
  let first := run.coordinator.brought
  let since := run.coordinator.history.size
  let run ← (List.range p.jobs).foldlM (enqueue? p fuel) run
  let (_, run) ← run.perform? (.waitUntilIdle none) fuel
  let monitor ← run.coordinator.snapshot.toOption
  let started := (starts run.coordinator since).map fun (key, serial) => (key, serial - first)
  return (⟨monitor, run.rejected, (OrderLedger.empty.recordEach started).violations⟩,
    { run with remarks := OrderLedger.empty.remarks started })

end Run

end KeyedJobs.Load
