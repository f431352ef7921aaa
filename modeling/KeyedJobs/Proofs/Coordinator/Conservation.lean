import KeyedJobs.Proofs.Coordinator.Ledger

/-! # Conservation of jobs

The gauge shows the jobs that are being offered to the queue and those that are in one of their
places, and whenever it is at zero every admitted job has been counted once, as succeeded or as
abandoned.
-/

namespace KeyedJobs

open Monitor (Adjustment)

namespace Coordinator

variable {config : Config} {s : Coordinator} {q : KeyQueue Ticket}

/-- What conservation means in one state. -/
structure Conserved (s : Coordinator) (q : KeyQueue Ticket) : Prop where
  /-- The gauge shows the jobs in all places. -/
  gauge : s.monitor.incomplete = s.offered.length + q.allWaiting.length + s.resumed.length +
    s.taken.length + s.dropped.length
  /-- No job is in two places, or twice in one. -/
  apart : (s.offered ++ s.placed q).Nodup
  /-- A pushed job is in its place until it is counted, and is counted once. -/
  once : ∀ n ∈ s.admissions, s.counts.count n = if n ∈ s.placed q then 0 else 1
  pushed : ∀ n, n ∈ s.placed q ∨ n ∈ s.counts → n ∈ s.admissions
  /-- Whoever takes a job off the gauge finds it above zero. -/
  raisedWorkers : ∀ worker ∈ s.workers, Lowers worker.left → 0 < s.monitor.incomplete
  raisedCalls : ∀ stage ∈ s.calls, Lowers stage.left ∨ stage.offered ≠ [] →
    0 < s.monitor.incomplete
  /-- As many endings were counted as jobs, but for those that are being counted. -/
  endings : s.monitor.succeeded + s.monitor.abandoned + s.pending Adjustment.ends =
    s.counts.length + s.pending Adjustment.lowers
  drained : s.channel.closed = false → s.monitor.incomplete = 0 → q.lines = []
  settled : s.monitor.incomplete = 0 → (∀ stage ∈ s.calls, stage.enqueues = false) →
    s.monitor.admitted = s.monitor.succeeded + s.monitor.abandoned ∧
      s.monitor.discarded ≤ s.monitor.abandoned

theorem holds_of_taken {worker : Worker} (empty : worker.taken = []) (key : String) :
    worker.holds key = 0 := by
  cases worker with
  | holding | driving | releasing | resuming => cases empty
  | _ => rfl

theorem holds_of_carried {signal : Signal} (empty : signal.carried = []) (key : String) :
    signal.holds key = 0 := by
  cases signal with
  | wake => rfl
  | resume => cases empty

theorem Custody.lines_of_placed (custody : Custody s q) (opened : s.channel.closed = false)
    (empty : s.placed q = []) : q.lines = [] := by
  simp only [placed, List.append_eq_nil_iff, KeyQueue.serials, List.map_eq_nil_iff, taken, resumed,
    List.flatMap_eq_nil_iff] at empty
  obtain ⟨⟨⟨waiting, signals⟩, workers⟩, -⟩ := empty
  refine custody.formed.lines_eq_nil ?_ (KeyQueue.not_idles_of_allWaiting waiting)
  intro key
  have unheld : tally (Worker.holds key) s.workers = 0 :=
    tally_eq_zero.mpr fun worker member => holds_of_taken (workers worker member) key
  have uncarried : tally (Signal.holds key) s.channel.held = 0 :=
    tally_eq_zero.mpr fun signal member => holds_of_carried (signals signal member) key
  have marked := custody.marked opened key
  rw [holders, unheld, uncarried] at marked
  omega

theorem Ledger.pending_eq_zero (ledger : Ledger s) (lowered : s.pending Adjustment.lowers = 0)
    {kind : Adjustment → Nat} : s.pending kind = 0 := by
  unfold pending at lowered ⊢
  have workers : tally (fun worker : Worker => tally kind worker.left) s.workers = 0 := by
    apply tally_eq_zero.mpr
    intro worker member
    have none_lowers := tally_eq_zero.mp (Nat.eq_zero_of_add_eq_zero_right lowered) worker member
    rw [(ledger.closingWorkers worker member).eq_nil none_lowers, tally_nil]
  have calls : tally (fun stage : Stage => tally kind stage.left) s.calls = 0 := by
    apply tally_eq_zero.mpr
    intro stage member
    have none_lowers := tally_eq_zero.mp (Nat.eq_zero_of_add_eq_zero_left lowered) stage member
    rw [(ledger.closingCalls stage member).eq_nil none_lowers, tally_nil]
  omega

theorem length_uncounted (serial : Nat) (left : List Adjustment) :
    (uncounted serial left).length = tally Adjustment.lowers left := by
  rw [uncounted, List.length_replicate]
  induction left with
  | nil => rfl
  | cons adjustment rest ih =>
      rw [List.count_cons, tally_cons, ih, Nat.add_comm]
      cases adjustment <;> rfl

theorem lowers_of_taken {worker : Worker} (empty : worker.taken = []) :
    tally Adjustment.lowers worker.left = 0 := by
  cases worker with
  | shedding next left done => simp [Worker.taken] at empty
  | counting done left =>
      rw [Worker.left, ← length_uncounted done.serial]
      exact List.length_eq_zero_iff.mpr empty
  | _ => rfl

theorem lowers_of_dropped {stage : Stage} (empty : stage.dropped = []) :
    tally Adjustment.lowers stage.left = 0 := by
  cases stage with
  | discounting ticket left rest finishing =>
      rw [Stage.left, ← length_uncounted ticket.serial]
      exact List.length_eq_zero_iff.mpr (List.append_eq_nil_iff.mp empty).1
  | _ => rfl

theorem pending_of_placed (empty : s.placed q = []) : s.pending Adjustment.lowers = 0 := by
  simp only [placed, List.append_eq_nil_iff, taken, dropped, List.flatMap_eq_nil_iff] at empty
  obtain ⟨⟨-, workers⟩, calls⟩ := empty
  have unlowered : tally (fun worker : Worker => tally Adjustment.lowers worker.left) s.workers = 0 :=
    tally_eq_zero.mpr fun worker member => lowers_of_taken (workers worker member)
  have unlowered' : tally (fun stage : Stage => tally Adjustment.lowers stage.left) s.calls = 0 :=
    tally_eq_zero.mpr fun stage member => lowers_of_dropped (calls stage member)
  rw [pending, unlowered, unlowered']

theorem Ledger.settled (ledger : Ledger s) (placed : Placed s q) (idle : s.monitor.incomplete = 0)
    (quiet : ∀ stage ∈ s.calls, stage.enqueues = false) :
    s.monitor.admitted = s.monitor.succeeded + s.monitor.abandoned ∧
      s.monitor.discarded ≤ s.monitor.abandoned := by
  have shown := ledger.incomplete placed
  have empty : s.placed q = [] := List.length_eq_zero_iff.mp (by omega)
  have lowered := pending_of_placed empty
  have ends : s.pending Adjustment.ends = 0 := ledger.pending_eq_zero lowered
  have abandons : s.pending Adjustment.abandons = 0 := ledger.pending_eq_zero lowered
  have admitting : tally Stage.admits s.calls = 0 := by
    apply tally_eq_zero.mpr
    intro stage member
    have returned := quiet stage member
    cases stage with
    | admitting => cases returned
    | _ => rfl
  have gauge := ledger.gauge
  have admitted := ledger.admitted
  have endings := ledger.endings
  have discards := ledger.discards
  constructor <;> omega

theorem Custody.conserved (custody : Custody s q) (placed : Placed s q) (ledger : Ledger s) :
    Conserved s q where
  gauge := by
    rw [ledger.incomplete placed, length_placed]
    omega
  apart := by
    apply List.nodup_iff_count.mpr
    intro n
    have kept := placed.kept n
    have fresh := placed.fresh n
    rw [List.count_append]
    split at fresh <;> omega
  once n admitted := by
    have kept := placed.kept n
    have fresh := placed.fresh n
    have present := List.count_pos_iff.mpr admitted
    split
    · rename_i inPlace
      have inPlace := List.count_pos_iff.mpr inPlace
      split at fresh <;> omega
    · rename_i gone
      have gone := List.count_eq_zero.mpr gone
      split at fresh <;> omega
  pushed n known := by
    refine placed.perm.mem_iff.mp ?_
    rcases known with inPlace | counted
    · exact List.mem_append_right _ inPlace
    · exact List.mem_append_left _ counted
  raisedWorkers worker member lowers := ledger.raised_of_worker placed member lowers
  raisedCalls stage member lowering := by
    rcases lowering with lowers | offers
    · exact ledger.raised_of_call placed member lowers
    · exact ledger.raised_of_offer placed member offers
  endings := ledger.endings
  drained opened idle := by
    have shown := ledger.incomplete placed
    exact custody.lines_of_placed opened (List.length_eq_zero_iff.mp (by omega))
  settled idle quiet := ledger.settled placed idle quiet

/-- No job is lost and none is counted twice, whatever the threads do and in whatever order. -/
theorem conserved_of_arises (arises : Arises config s) :
    ∃ q, s.queue = .sound q ∧ Conserved s q := by
  obtain ⟨q, custody, placed, ledger⟩ := arises.booked
  exact ⟨q, custody.sound, custody.conserved placed ledger⟩

/-- One job is being counted, its key's next job has been sent on, and a third call has raised the
gauge. -/
theorem conserved_of_three_jobs :
    let job := Job.new "A" fun _ => .writes []
    let s := (fresh (.default .single)).follow [.begin (.enqueue job), .begin (.enqueue job),
      .begin (.enqueue job), .call 0, .call 0, .call 0, .call 0, .call 1, .call 1, .worker 0,
      .worker 0, .worker 0, .worker 0, .worker 0, .worker 0, .worker 0, .worker 0, .worker 0,
      .call 2]
    Arises (.default .single) s ∧ ∃ q, s.queue = .sound q ∧ Conserved s q := by
  intro job s
  have arises : Arises (.default .single) s := .follow rfl (by decide)
  exact ⟨arises, conserved_of_arises arises⟩

end Coordinator

end KeyedJobs
