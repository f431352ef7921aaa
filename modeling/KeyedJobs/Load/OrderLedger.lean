import KeyedJobs.Log

/-! # The order in which jobs start

Jobs are numbered in the order in which they were brought. For each key the ledger keeps the highest
number of a job that has started, and it counts the starts that come after that of a job with a
higher number.
-/

namespace KeyedJobs.Load

structure OrderLedger where
  /-- The highest number that was recorded for each key. -/
  lastStarted : List (String × Nat)
  violations : Nat
  deriving Repr, DecidableEq

namespace OrderLedger

def empty : OrderLedger := ⟨[], 0⟩

/-- The highest number that was recorded for a key. -/
def last? (ledger : OrderLedger) (key : String) : Option Nat :=
  ledger.lastStarted.lookup key

/-- Keeps a number as the highest of a key. -/
def raise (ledger : OrderLedger) (key : String) (seq : Nat) : OrderLedger :=
  { ledger with lastStarted := (key, seq) :: ledger.lastStarted.filter (·.1 ≠ key) }

/-- Records a start. -/
def record (ledger : OrderLedger) (key : String) (seq : Nat) : OrderLedger :=
  match ledger.last? key with
  | none => ledger.raise key seq
  | some last =>
      if seq < last then { ledger with violations := ledger.violations + 1 }
      else ledger.raise key seq

/-- What is logged when a start is recorded. -/
def remark (ledger : OrderLedger) (key : String) (seq : Nat) : List LogLine :=
  match ledger.last? key with
  | none => []
  | some last =>
      if seq < last then [.warn s!"Job {seq} of key {key} started after job {last}"] else []

/-- Records starts in order. -/
def recordEach (ledger : OrderLedger) (starts : List (String × Nat)) : OrderLedger :=
  starts.foldl (fun ledger (key, seq) => ledger.record key seq) ledger

/-- What is logged when starts are recorded in order. -/
def remarks (ledger : OrderLedger) : List (String × Nat) → List LogLine
  | [] => []
  | (key, seq) :: starts => ledger.remark key seq ++ (ledger.record key seq).remarks starts

end OrderLedger

end KeyedJobs.Load
