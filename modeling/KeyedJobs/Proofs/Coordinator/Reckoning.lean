import KeyedJobs.Proofs.Coordinator.Independence

/-! # What the counters say about jobs

When no job is left on the gauge, the counters of endings can be read off the history of the run: each
admitted job has returned, has panicked when it was let go of, or was discarded, and it is counted for
the calls that were made into it only if it has returned.
-/

namespace KeyedJobs

open Monitor (Counter)

/-- The job whose drive returns, and the resolution. -/
def Event.returned? : Event → Option (Nat × Resolution)
  | .driven serial _ (.ok resolution) => some (serial, resolution)
  | _ => none

/-- The job whose drive panics. -/
def Event.panicked? : Event → Option Nat
  | .driven serial _ (.error _) => some serial
  | _ => none

/-- The job that is dropped before it is driven. -/
def Event.discarded? : Event → Option Nat
  | .discarded serial _ => some serial
  | _ => none

theorem Event.of_returned? {event : Event} {n : Nat} {resolution : Resolution}
    (returned : event.returned? = some (n, resolution)) :
    ∃ key, event = .driven n key (.ok resolution) := by
  unfold returned? at returned
  split at returned
  · cases returned
    exact ⟨_, rfl⟩
  · cases returned

theorem Event.of_panicked? {event : Event} {n : Nat} (panicked : event.panicked? = some n) :
    ∃ key panic, event = .driven n key (.error panic) := by
  unfold panicked? at panicked
  split at panicked
  · cases panicked
    exact ⟨_, _, rfl⟩
  · cases panicked

theorem Event.of_discarded? {event : Event} {n : Nat} (discarded : event.discarded? = some n) :
    ∃ key, event = .discarded n key := by
  unfold discarded? at discarded
  split at discarded
  · cases discarded
    exact ⟨_, rfl⟩
  · cases discarded

theorem perm_ends (events : List Event) :
    ((events.filterMap Event.returned?).map (·.1) ++ events.filterMap Event.panicked? ++
      events.filterMap Event.discarded?).Perm (events.flatMap Event.ends) := by
  induction events with
  | nil => exact .nil
  | cons event rest ih =>
      rw [List.flatMap_cons]
      cases event with
      | driven serial key ending =>
          cases ending with
          | ok resolution => exact ih.cons serial
          | error panic =>
              simp only [List.filterMap_cons, Event.returned?, Event.panicked?, Event.discarded?,
                Event.ends, List.append_assoc, List.cons_append, List.nil_append] at ih ⊢
              exact List.perm_middle.trans (ih.cons serial)
      | discarded serial key =>
          simp only [List.filterMap_cons, Event.returned?, Event.panicked?, Event.discarded?,
            Event.ends, List.cons_append, List.nil_append]
          exact List.perm_middle.trans (ih.cons serial)
      | _ => exact ih

theorem tally_dues (counter : Counter) (events : List Event) :
    tally counter.weight (events.flatMap Event.dues) =
      tally (fun (_, resolution) =>
          tally counter.weight (Monitor.Change.finished resolution).adjustments)
          (events.filterMap Event.returned?) +
        counter.weight .abandonment * (events.filterMap Event.panicked?).length +
        (counter.weight .abandonment + counter.weight .discard) *
          (events.filterMap Event.discarded?).length := by
  induction events with
  | nil => rfl
  | cons event rest ih =>
      rw [List.flatMap_cons, tally_append, ih]
      cases event with
      | driven serial key ending =>
          cases ending with
          | ok resolution =>
              simp only [List.filterMap_cons, Event.returned?, Event.panicked?, Event.discarded?,
                Event.dues, resolutionOf, tally_cons]
              omega
          | error panic =>
              have share : tally counter.weight (Event.driven serial key (.error panic)).dues =
                  counter.weight .abandonment := by cases counter <;> rfl
              simp only [List.filterMap_cons, Event.returned?, Event.panicked?, Event.discarded?,
                share, List.length_cons, Nat.mul_succ]
              omega
      | discarded serial key =>
          have share : tally counter.weight (Event.discarded serial key).dues =
              counter.weight .abandonment + counter.weight .discard := by cases counter <;> rfl
          simp only [List.filterMap_cons, Event.returned?, Event.panicked?, Event.discarded?, share,
            List.length_cons, Nat.mul_succ]
          omega
      | _ =>
          simp only [List.filterMap_cons, Event.returned?, Event.panicked?, Event.discarded?,
            Event.dues, tally_nil, Nat.zero_add]

namespace Coordinator

variable {config : Config} {s : Coordinator} {q : KeyQueue Ticket} {jobs : List Job}
  {rule : Coordinator → Move → Prop} {fits : Drive → Instant → Completions → Prop} {n : Nat}
  {resolution : Resolution}

/-- The jobs whose drives have returned, with their resolutions. -/
def returnedJobs (s : Coordinator) : List (Nat × Resolution) :=
  s.history.toList.filterMap Event.returned?

/-- The jobs whose drives have panicked. -/
def panickedJobs (s : Coordinator) : List Nat := s.history.toList.filterMap Event.panicked?

/-- The jobs that were dropped before they were driven. -/
def discardedJobs (s : Coordinator) : List Nat := s.history.toList.filterMap Event.discarded?

/-- How often the action of the job has been called. -/
def attemptsOf (s : Coordinator) (n : Nat) : Nat := (s.callsOf n).countP (·.number?.isSome)

/-- How often the compensator of the job has been called. -/
def compensationsOf (s : Coordinator) (n : Nat) : Nat := (s.callsOf n).countP (·.number?.isNone)

/-- The counters of endings, as they follow from the ends of jobs and from the calls into them. -/
structure Reckoning (jobs : List Job) (s : Coordinator) : Prop where
  /-- Every admitted job has ended in one of three ways. -/
  ends : (s.returnedJobs.map (·.1) ++ s.panickedJobs ++ s.discardedJobs).Perm s.admissions
  once : s.admissions.Nodup
  terminal : ∀ n resolution, (n, resolution) ∈ s.returnedJobs →
    resolution.state = .succeeded ∨ resolution.state = .abandoned
  succeeded : s.monitor.succeeded = s.returnedJobs.countP (·.2.state = .succeeded)
  abandoned : s.monitor.abandoned = s.returnedJobs.countP (·.2.state = .abandoned) +
    s.panickedJobs.length + s.discardedJobs.length
  retried : s.monitor.retried = tally (fun (n, _) => s.attemptsOf n - 1) s.returnedJobs
  compensated : s.monitor.compensated = tally (fun (n, _) => s.compensationsOf n) s.returnedJobs
  discarded : s.monitor.discarded = s.discardedJobs.length
  panicked : ∀ n ∈ s.panickedJobs, ∃ job, jobs[n]? = some job ∧ job.dropPanic.isSome
  uncalled : ∀ n ∈ s.discardedJobs, s.callsOf n = []

theorem Charted.driven (charted : Charted fits jobs s q) {key : String}
    {ending : Except Panic Resolution} (recorded : .driven n key ending ∈ s.history.toList) :
    ∃ job drive returned, jobs[n]? = some job ∧ Traced fits s.policy job drive (s.callsOf n) ∧
      drive.resolution? = some returned ∧ ending = job.ending returned := by
  have course := (charted.standing n).ended (mem_endings recorded (List.mem_singleton.mpr rfl))
  have present : .driven n key ending ∈ s.work n := mem_work recorded rfl
  unfold callsOf
  generalize s.work n = events at course present
  cases course with
  | @driven job drive made returned worker numbered traced ended =>
      rw [List.filterMap_append, calls_of_made_eq]
      refine ⟨job, drive, returned, numbered, (List.append_nil made).symm ▸ traced, ended, ?_⟩
      rw [ending_afterDrive, Job.ending, traced.ofJob.dropPanic, ← Job.ending] at present
      have same : key = job.key ∧ ending = job.ending returned := by simpa using present
      exact same.2
  | dropped => simp at present

theorem Charted.returned (charted : Charted fits jobs s q)
    (fresh : ∀ job ∈ jobs, job.attemptCount = 0) (limited : ∀ job ∈ jobs, job.maxRetries < maxAttempts)
    (member : (n, resolution) ∈ s.returnedJobs) :
    resolution.state.isTerminal = true ∧ s.attemptsOf n = resolution.attempts ∧
      s.compensationsOf n = if resolution.compensated then 1 else 0 := by
  obtain ⟨event, recorded, returned⟩ := List.mem_filterMap.mp member
  obtain ⟨key, rfl⟩ := Event.of_returned? returned
  obtain ⟨job, drive, returned, numbered, traced, ended, kept⟩ := charted.driven recorded
  have brought := List.mem_of_getElem? numbered
  have same : resolution = returned := by
    unfold Job.ending at kept
    split at kept <;> cases kept
    rfl
  exact traced.reports (fresh job brought) (limited job brought) (same ▸ ended)

theorem Charted.panicked (charted : Charted fits jobs s q) (member : n ∈ s.panickedJobs) :
    ∃ job, jobs[n]? = some job ∧ job.dropPanic.isSome := by
  obtain ⟨event, recorded, panicked⟩ := List.mem_filterMap.mp member
  obtain ⟨key, panic, rfl⟩ := Event.of_panicked? panicked
  obtain ⟨job, drive, returned, numbered, traced, ended, kept⟩ := charted.driven recorded
  refine ⟨job, numbered, ?_⟩
  unfold Job.ending at kept
  split at kept <;> cases kept
  rename_i panics
  rw [panics]
  rfl

theorem Charted.uncalled (charted : Charted fits jobs s q) (member : n ∈ s.discardedJobs) :
    s.callsOf n = [] := by
  obtain ⟨event, recorded, discarded⟩ := List.mem_filterMap.mp member
  obtain ⟨key, rfl⟩ := Event.of_discarded? discarded
  exact charted.uncalled_of_discarded recorded

theorem Booked.read (booked : Booked s) (ledger : Ledger s) (empty : s.placed q = [])
    (counter : Counter) : counter.read s.monitor =
      tally (fun (_, resolution) =>
          tally counter.weight (Monitor.Change.finished resolution).adjustments) s.returnedJobs +
        counter.weight .abandonment * s.panickedJobs.length +
        (counter.weight .abandonment + counter.weight .discard) * s.discardedJobs.length := by
  have shown := booked counter
  rw [owed_of_placed ledger empty, tally_nil, Nat.add_zero, due, tally_dues] at shown
  exact shown

theorem Plays.books (plays : Plays rule config jobs s) :
    ∃ q, Charted Anyhow jobs s q ∧ Booked s ∧ Ledger s := by
  obtain ⟨q, -, books⟩ := plays.induct (P := fun jobs s q => Charted Anyhow jobs s q ∧ Booked s ∧
      Ledger s)
    ⟨.of_fresh config, .of_fresh config, .of_fresh config⟩
    fun _ custody ⟨charted, booked, ledger⟩ _ move =>
      ⟨charted.of_transition custody (fun _ _ _ => trivial) move, booked.of_transition move,
        ledger.of_transition charted.placed move⟩
  exact ⟨q, books⟩

/-- With the gauge at zero, the counters of endings follow from the ends of the jobs and from the
calls that were made into them. -/
theorem reckoning_of_plays (plays : Plays Free config jobs s)
    (fresh : ∀ job ∈ jobs, job.attemptCount = 0)
    (limited : ∀ job ∈ jobs, job.maxRetries < maxAttempts) (idle : s.incomplete = 0) :
    Reckoning jobs s := by
  obtain ⟨q, charted, booked, ledger⟩ := plays.books
  have empty : s.placed q = [] := by
    have shown := ledger.incomplete charted.placed
    have zero : s.monitor.incomplete = 0 := idle
    exact List.length_eq_zero_iff.mp (by omega)
  have terminal : ∀ entry ∈ s.returnedJobs,
      entry.2.state = .succeeded ∨ entry.2.state = .abandoned := by
    intro entry member
    have terminal := (charted.returned fresh limited member).1
    cases state : entry.2.state <;> simp_all [JobState.isTerminal]
  have read := fun counter => booked.read ledger empty counter
  simp only [Counter.weight_finished] at read
  constructor
  case ends => exact (perm_ends _).trans (charted.balanced.perm_endings empty)
  case once => exact List.nodup_iff_count.mpr charted.placed.admitted_le_one
  case terminal => exact fun n resolution member => terminal _ member
  case panicked => exact fun n member => charted.panicked member
  case uncalled => exact fun n member => charted.uncalled member
  case succeeded =>
    refine (read .succeeded).trans ?_
    rw [← tally_countP]
    simp [Counter.weight]
  case abandoned =>
    refine (read .abandoned).trans ?_
    have states : tally (fun entry : Nat × Resolution =>
        if entry.2.state = .succeeded then 0 else 1) s.returnedJobs =
          s.returnedJobs.countP (·.2.state = .abandoned) := by
      rw [← tally_countP]
      apply tally_congr
      intro entry member
      rcases terminal entry member with state | state <;> simp [state]
    simp only [states, Counter.weight]
    omega
  case retried =>
    refine (read .retried).trans ?_
    simp only [Counter.weight, Nat.zero_mul, Nat.add_zero]
    apply tally_congr
    intro entry member
    rw [(charted.returned fresh limited member).2.1]
  case compensated =>
    refine (read .compensated).trans ?_
    simp only [Counter.weight, Nat.zero_mul, Nat.add_zero]
    apply tally_congr
    intro entry member
    rw [(charted.returned fresh limited member).2.2]
  case discarded =>
    refine (read .discarded).trans ?_
    rw [tally_eq_zero.mpr fun _ _ => rfl]
    simp only [Counter.weight]
    omega

/-- One job succeeds when it is retried, one is compensated, one panics when it is let go of, and the
last one is discarded. -/
theorem reckoning_of_four_jobs :
    let retried := (Job.new "A" fun n => if n = 1 then .fails ⟨["no"]⟩ else .writes []).withMaxRetries 1
    let compensated := (Job.new "B" fun _ => .fails ⟨["no"]⟩).withCompensator
      ⟨fun _ => .writes [], false, fun _ => []⟩
    let panicking := { Job.new "C" fun _ => .writes [] with dropPanic := some (.text "boom") }
    let discarded := Job.new "D" fun _ => .writes []
    let jobs := [retried, compensated, panicking, discarded]
    let enqueue (job : Job) : List Move :=
      [.begin (.enqueue job), .call 0, .call 0, .call 0, .call 0, .leave 0]
    let config := (Config.default .single).withShutdownPolicy .discard
    let moves := enqueue retried ++ enqueue compensated ++ enqueue panicking ++
      List.replicate 40 (.worker 0) ++ enqueue discarded ++ [.begin .shutdown] ++
      List.replicate 9 (.call 0)
    let s := (fresh config).follow moves
    (Plays Free config jobs s ∧ (∀ job ∈ jobs, job.attemptCount = 0) ∧
        (∀ job ∈ jobs, job.maxRetries < maxAttempts) ∧ s.incomplete = 0) ∧
      Reckoning jobs s ∧ s.monitor = ⟨4, 1, 3, 1, 1, 1, 0⟩ := by
  intro retried compensated panicking discarded jobs enqueue config moves s
  have possible : (Coordinator.fresh config).canFollow moves = true := by decide +kernel
  have plays : Plays Free config jobs s := .free rfl possible
  have fresh : ∀ job ∈ jobs, job.attemptCount = 0 := by decide
  have limited : ∀ job ∈ jobs, job.maxRetries < maxAttempts := by decide
  have idle : s.incomplete = 0 := by decide +kernel
  exact ⟨⟨plays, fresh, limited, idle⟩, reckoning_of_plays plays fresh limited idle,
    by decide +kernel⟩

end Coordinator

end KeyedJobs
