import KeyedJobs.Proofs.Coordinator.Bookkeeping
import KeyedJobs.Proofs.Coordinator.Courses

/-! # Shutting down without driving the waiting jobs

By the policy to discard, a shutdown takes the waiting jobs out of the queue. None of them is ever
called, and each is counted as discarded and as abandoned, while the jobs that are being driven run
to their ends. A job that has been handed out and not been started is neither: it is on its way to a
worker, and the shutdown does not stop it.
-/

namespace KeyedJobs

open Monitor (Counter)

/-- Whether the call is about to take the waiting jobs out of the queue. -/
def Stage.discards : Stage → Bool
  | .discarding _ => true
  | _ => false

/-- The job was dropped. -/
def Event.drops : Event → Bool
  | .discarded _ _ => true
  | _ => false

/-- A drive ended without success. -/
def Event.fails : Event → Bool
  | .driven _ key ending => (resolutionOf key ending).state ≠ .succeeded
  | _ => false

namespace Coordinator

variable {config : Config} {s t : Coordinator} {q q' : KeyQueue Ticket} {m : Move} {n : Nat}
  {key : String}

theorem tally_due_discarded (events : List Event) :
    tally Counter.discarded.weight (events.flatMap Event.dues) = events.countP Event.drops := by
  rw [tally_flatMap]
  induction events with
  | nil => rfl
  | cons event rest ih =>
      rw [tally_cons, List.countP_cons, ih, Nat.add_comm]
      congr 1
      cases event with
      | driven serial key ending =>
          simp only [Event.dues, Monitor.Change.adjustments, Monitor.Adjustment.ofEnding]
          split <;> split <;> rfl
      | _ => rfl

theorem tally_due_abandoned (events : List Event) :
    tally Counter.abandoned.weight (events.flatMap Event.dues) =
      events.countP Event.drops + events.countP Event.fails := by
  rw [tally_flatMap]
  induction events with
  | nil => rfl
  | cons event rest ih =>
      rw [tally_cons, List.countP_cons, List.countP_cons, ih]
      cases event with
      | driven serial key ending =>
          simp only [Event.dues, Event.drops, Event.fails, Monitor.Change.adjustments,
            Monitor.Adjustment.ofEnding]
          by_cases succeeded : (resolutionOf key ending).state = .succeeded <;>
            cases (resolutionOf key ending).compensated <;>
            simp [succeeded, Counter.weight] <;> omega
      | discarded =>
          simp only [Event.dues, Event.drops, Event.fails, Monitor.Change.adjustments, tally_cons,
            tally_nil, Counter.weight, if_true]
          simp
          omega
      | _ =>
          simp [Event.dues, Event.drops, Event.fails]

theorem unended_of_works {gone come : List Bearing} {events : List Event}
    (shift : Shift s q gone come events q') (touched : events.filter (·.worksOn = some n) ≠ []) :
    n ∈ gone.flatMap Bearing.unended ∨ n ∈ q.serials := by
  obtain ⟨event, member⟩ := List.exists_mem_of_ne_nil _ touched
  obtain ⟨recorded, touches⟩ := List.mem_filter.mp member
  have works : event.worksOn = some n := of_decide_eq_true touches
  cases shift with
  | rest silent same =>
      have quiet := silent event recorded
      cases event with
      | counted => cases works
      | _ => cases quiet
  | push =>
      rw [List.mem_singleton.mp recorded] at works
      cases works
  | drive ticket =>
      obtain ⟨call, -, rfl⟩ := List.mem_map.mp recorded
      exact .inl (List.mem_singleton.mpr (Option.some.inj works).symm)
  | finish ticket =>
      rw [List.mem_singleton.mp recorded] at works
      exact .inl (List.mem_singleton.mpr (Option.some.inj works).symm)
  | refuse next =>
      rw [List.mem_singleton.mp recorded] at works
      exact .inl (List.mem_singleton.mpr (Option.some.inj works).symm)
  | discard =>
      obtain ⟨entry, present, rfl⟩ := List.mem_map.mp recorded
      exact .inr (List.mem_map.mpr ⟨entry, present, Option.some.inj works⟩)
  | _ => cases recorded

theorem toList_note (s : Coordinator) (events : List Event) :
    (s.note events).history.toList = s.history.toList ++ events := by
  simp [note]

/-- Where every job of the run is, and that it is there once. -/
structure Located (s : Coordinator) (q : KeyQueue Ticket) : Prop where
  custody : Custody s q
  placed : Placed s q
  balanced : Balanced s q
  booked : Booked s

theorem Arises.located (arises : Arises config s) : ∃ q, Located s q := by
  obtain ⟨q, custody, placed, balanced, booked⟩ := arises.induct
    (P := fun s q => Placed s q ∧ Balanced s q ∧ Booked s)
    ⟨.of_fresh config, .of_fresh config, .of_fresh config⟩
    fun _ custody ⟨placed, balanced, booked⟩ move =>
      ⟨placed.of_transition custody move, balanced.of_transition custody move,
        booked.of_transition move⟩
  exact ⟨q, custody, placed, balanced, booked⟩

theorem Located.work_of_ended (located : Located s q) (move : Transition s q m t q')
    (ended : n ∈ s.endings) : n ∈ t.endings ∧ t.work n = s.work n := by
  obtain ⟨gone, come, events, shift, ⟨kept, before, -⟩, noted⟩ := move.shift
  constructor
  · rw [endings_append noted]
    exact List.mem_append_left _ ended
  · rw [work_append noted]
    by_contra changed
    have touched : events.filter (·.worksOn = some n) ≠ [] := fun none =>
      changed (by rw [none, List.append_nil])
    have alone := located.balanced.alone located.placed n
    have present := List.count_pos_iff.mpr ended
    rcases unended_of_works shift touched with out | waits
    · have unended : n ∈ s.unended := by
        rw [unended, (before.flatMap_right Bearing.unended).mem_iff, List.flatMap_append]
        exact List.mem_append_left _ out
      have held := List.count_pos_iff.mpr unended
      omega
    · have held := List.count_pos_iff.mpr waits
      omega

theorem Located.move (located : Located s q) (possible : s.canMove m = true) :
    ∃ q', Transition s q m (s.move m) q' :=
  located.custody.transition possible

theorem work_of_ended (arises : Arises config s) (reaches : Reaches s t) (ended : n ∈ s.endings) :
    n ∈ t.endings ∧ t.work n = s.work n := by
  induction reaches with
  | refl => exact ⟨ended, rfl⟩
  | step m reached possible ih =>
      obtain ⟨ended, same⟩ := ih
      obtain ⟨q, located⟩ := (arises.reaches reached).located
      obtain ⟨q', move⟩ := located.move possible
      obtain ⟨ended, kept⟩ := located.work_of_ended move ended
      exact ⟨ended, kept.trans same⟩

/-- A drive goes on from some point: it is still underway or has ended, and whatever has happened to
the job since then belongs to the drive. -/
inductive GoesOn (ticket : Ticket) (since : List Event) (t : Coordinator) : Prop where
  | underway (drive : Drive) (made : List JobCall) (present : .underway ticket drive ∈ t.bearings)
      (work : t.work ticket.serial = since ++ made.map (.called ticket.serial ticket.job.key))
  | ended (made : List JobCall) (ending : Except Panic Resolution)
      (ended : ticket.serial ∈ t.endings)
      (work : t.work ticket.serial = since ++ (made.map (.called ticket.serial ticket.job.key) ++
        [.driven ticket.serial ticket.job.key ending]))

theorem GoesOn.of_transition {ticket : Ticket} {since : List Event}
    (goesOn : GoesOn ticket since s) (located : Located s q) (move : Transition s q m t q') :
    GoesOn ticket since t := by
  cases goesOn with
  | ended made ending ended work =>
      obtain ⟨ended, same⟩ := located.work_of_ended move ended
      exact .ended made ending ended (same.trans work)
  | underway drive made present work =>
      obtain ⟨gone, come, events, shift, ⟨kept, before, after⟩, noted⟩ := move.shift
      have worked := work_append noted ticket.serial
      rcases List.mem_append.mp (before.mem_iff.mp present) with goes | stays
      · cases shift with
        | @drive other drive' going =>
            obtain ⟨rfl, rfl⟩ := Bearing.underway.inj (List.mem_singleton.mp goes)
            refine .underway _ (made ++ (drive.step s.policy s.now s.completions).made)
              (after.mem_iff.mpr List.mem_cons_self) ?_
            rw [worked, work, works_called, if_pos rfl, List.map_append, List.append_assoc]
        | @finish other drive' _ _ ending =>
            obtain ⟨rfl, rfl⟩ := Bearing.underway.inj (List.mem_singleton.mp goes)
            refine .ended made ending ?_ ?_
            · rw [endings_append noted]
              exact List.mem_append_right _ List.mem_cons_self
            · rw [worked, work]
              simp [Event.worksOn]
        | begin | refuse | handOver | closeLine => cases List.mem_singleton.mp goes
        | _ => cases goes
      · -- The job is elsewhere than what the move is about.
        refine .underway drive made (after.mem_iff.mpr (List.mem_append_right _ stays)) ?_
        rw [worked, work]
        suffices untouched : events.filter (·.worksOn = some ticket.serial) = [] by
          rw [untouched, List.append_nil]
        by_contra touched
        have alone := located.balanced.alone located.placed ticket.serial
        have out := (before.flatMap_right Bearing.unended).count_eq ticket.serial
        rw [List.flatMap_append, List.count_append] at out
        have kept_out : ticket.serial ∈ kept.flatMap Bearing.unended :=
          List.mem_flatMap.mpr ⟨_, stays, List.mem_singleton.mpr rfl⟩
        have held := List.count_pos_iff.mpr kept_out
        unfold unended at alone
        rcases unended_of_works shift touched with goes | waits
        · have held' := List.count_pos_iff.mpr goes
          omega
        · have held' := List.count_pos_iff.mpr waits
          omega

theorem GoesOn.of_reaches {ticket : Ticket} {since : List Event} (goesOn : GoesOn ticket since s)
    (arises : Arises config s) (reaches : Reaches s t) : GoesOn ticket since t := by
  induction reaches with
  | refl => exact goesOn
  | step m reached possible ih =>
      obtain ⟨q, located⟩ := (arises.reaches reached).located
      obtain ⟨q', move⟩ := located.move possible
      exact ih.of_transition located move

/-- What becomes of the jobs after a call has taken the waiting ones out of the queue. -/
structure Discarded (s : Coordinator) (q : KeyQueue Ticket) (t : Coordinator) : Prop where
  /-- A job that waited had not been called, and all that happens to it is that it is dropped. -/
  waiting : ∀ key ticket, (key, ticket) ∈ q.allWaiting →
    s.work ticket.serial = [] ∧ t.work ticket.serial = [.discarded ticket.serial key]
  /-- A job that was driven is driven on, to the end of its drive. -/
  driving : ∀ ticket drive, .driving ticket drive ∈ s.workers →
    GoesOn ticket (s.work ticket.serial) t
  /-- A job that has ended is counted once, or some thread has it in hand to count it. -/
  counted : ∀ n ∈ t.endings, (t.counts ++ t.closing ++ t.dropped).count n = 1
  discards : t.monitor.discarded + tally Counter.discarded.weight t.owed =
    t.history.toList.countP Event.drops
  abandons : t.monitor.abandoned + tally Counter.abandoned.weight t.owed =
    t.history.toList.countP Event.drops + t.history.toList.countP Event.fails

theorem Charted.unstarted_of_waiting {jobs : List Job}
    {fits : Drive → Instant → Completions → Prop} (charted : Charted fits jobs s q)
    (waits : n ∈ q.serials) : s.work n = [] := by
  obtain ⟨unended, idle⟩ := charted.balanced.idle_of_waiting charted.placed waits
  exact (charted.standing n).unstarted unended idle

theorem Charted.dropped_of_discarding {jobs : List Job}
    {fits : Drive → Instant → Completions → Prop} (charted : Charted fits jobs s q) {i : Nat}
    (discards : s.calls[i]?.any Stage.discards = true)
    (move : Transition s q (.call i) t q') {entry : String × Ticket}
    (waits : entry ∈ q.allWaiting) :
    entry.2.serial ∈ t.endings ∧
      t.work entry.2.serial = [.discarded entry.2.serial entry.1] := by
  have inQueue : entry.2.serial ∈ q.serials := List.mem_map.mpr ⟨_, waits, rfl⟩
  have unstarted := charted.unstarted_of_waiting inQueue
  have alone := charted.balanced.alone charted.placed entry.2.serial
  cases move with
  | call found step =>
      rw [found, Option.any_some] at discards
      cases step with
      | discard finishing log =>
          refine ⟨?_, (work_append (toList_note s _) _).trans ?_⟩
          · refine List.mem_flatMap.mpr ⟨.discarded entry.2.serial entry.1, ?_, List.mem_cons_self⟩
            change _ ∈ (s.note _).history.toList
            rw [toList_note]
            exact List.mem_append_right _ (List.mem_map.mpr ⟨entry, waits, rfl⟩)
          · rw [unstarted, works_discarded waits (by omega), List.nil_append]
      | _ => cases discards

/-- Whatever happens after a shutdown has taken the waiting jobs out of the queue: none of them is
called, and each of them is counted once as discarded and as abandoned. The jobs that are being
driven at that moment are driven to their ends. -/
theorem discarded_of_arises (arises : Arises config s) {i : Nat}
    (discards : s.calls[i]?.any Stage.discards = true) (later : Reaches (s.move (.call i)) t) :
    ∃ q, s.queue = .sound q ∧ Discarded s q t := by
  obtain ⟨jobs, plays⟩ := arises.plays
  obtain ⟨q, custody, charted⟩ := plays.charted
  have possible : s.canMove (.call i) = true := by
    cases found : s.calls[i]? with
    | none => simp [found] at discards
    | some stage =>
        rw [found, Option.any_some] at discards
        cases stage with
        | discarding => simp [canMove, found, canStepCall]
        | _ => cases discards
  obtain ⟨q', move⟩ := custody.transition possible
  have taken : Arises config (s.move (.call i)) := arises.reaches (.step _ (.refl _) possible)
  have now := taken.reaches later
  obtain ⟨r, located⟩ := now.located
  refine ⟨q, custody.sound, ?_, ?_, ?_, ?_, ?_⟩
  · intro key ticket waits
    obtain ⟨ended, dropped⟩ := charted.dropped_of_discarding discards move waits
    exact ⟨charted.unstarted_of_waiting (List.mem_map.mpr ⟨_, waits, rfl⟩),
      (work_of_ended taken later ended).2.trans dropped⟩
  · intro ticket drive present
    have before : GoesOn ticket (s.work ticket.serial) s :=
      .underway drive [] (List.mem_append_left _ (List.mem_flatMap.mpr
        ⟨_, present, List.mem_singleton.mpr rfl⟩)) (List.append_nil _).symm
    obtain ⟨_, located⟩ := arises.located
    obtain ⟨_, move⟩ := located.move possible
    exact (before.of_transition located move).of_reaches taken later
  · intro n ended
    have counted := located.balanced.counted located.placed n
    have alone := located.balanced.alone located.placed n
    have present := List.count_pos_iff.mpr ended
    simp only [List.count_append]
    omega
  · rw [← tally_due_discarded]
    exact located.booked .discarded
  · rw [← tally_due_abandoned]
    exact located.booked .abandoned

/-- The default settings, but for the policy to discard. -/
def discardingConfig : Config := (Config.default .single).withShutdownPolicy .discard

/-- One job is being driven when the next one of its key is taken out of the queue. -/
theorem discarded_of_waiting_job :
    let job := Job.new "A" fun _ => .writes []
    let s := (fresh discardingConfig).follow [.begin (.enqueue job), .begin (.enqueue job), .call 0,
      .call 0, .call 0, .call 0, .call 1, .call 1, .worker 0, .worker 0, .worker 0, .worker 0,
      .begin .shutdown, .call 2, .call 2]
    let t := (s.move (.call 2)).follow [.worker 0, .worker 0, .worker 0]
    (Arises discardingConfig s ∧ s.calls[2]?.any Stage.discards = true ∧
        Reaches (s.move (.call 2)) t) ∧
      ∃ q, s.queue = .sound q ∧ Discarded s q t := by
  intro job s t
  have arises : Arises discardingConfig s := .follow rfl (by decide)
  have discards : s.calls[2]?.any Stage.discards = true := by decide
  have later : Reaches (s.move (.call 2)) t := .follow (.refl _) (by decide)
  exact ⟨⟨arises, discards, later⟩, discarded_of_arises arises discards later⟩

/-- A job that has been handed out and not been started is not discarded. When the shutdown takes
out the waiting jobs, the job has been admitted, no worker has it and it has never been called; still
it is called afterwards. -/
theorem undiscarded_of_resumed_job :
    let job := Job.new "A" fun _ => .writes []
    let s := (fresh discardingConfig).follow ([.begin (.enqueue job), .begin (.enqueue job), .call 0,
      .call 0, .call 0, .call 0, .call 1, .call 1] ++ List.replicate 12 (.worker 0) ++
      [.begin .shutdown, .call 2, .call 2])
    let t := (s.move (.call 2)).follow (List.replicate 6 (.worker 0))
    Arises discardingConfig s ∧ s.calls[2]?.any Stage.discards = true ∧
      (1 ∈ s.admissions ∧ 1 ∉ s.taken ∧ 1 ∉ (s.jobCalls 0).map (·.1)) ∧
      Reaches (s.move (.call 2)) t ∧ 1 ∈ (t.jobCalls 0).map (·.1) := by
  intro job s t
  have arises : Arises discardingConfig s := .follow rfl (by decide)
  have later : Reaches (s.move (.call 2)) t := .follow (.refl _) (by decide)
  exact ⟨arises, by decide, by decide, later, by decide⟩

end Coordinator

end KeyedJobs
