import Mathlib.Data.List.Induction
import KeyedJobs.Proofs.Coordinator.Bookkeeping
import KeyedJobs.Proofs.Coordinator.Ownership
import KeyedJobs.Proofs.Retry.Alone

/-! # The schedule makes no difference

When jobs that share nothing have all been brought and counted, it no longer shows which workers
drove them and how the threads took turns: the calls into the jobs of a key are those of driving
them alone one after the other, and the counters are the same.
-/

namespace KeyedJobs

open Monitor (Counter)

/-- How the drive of the job is left when it has come to this end. -/
def Job.ending (job : Job) (resolution : Resolution) : Except Panic Resolution :=
  match job.dropPanic with
  | none => .ok resolution
  | some panic => .error panic

theorem Monitor.eq_of_counters {m m' : Monitor} (admitted : m.admitted = m'.admitted)
    (incomplete : m.incomplete = m'.incomplete)
    (counters : ∀ counter : Counter, counter.read m = counter.read m') : m = m' := by
  cases m
  cases m'
  simp only [mk.injEq]
  exact ⟨admitted, counters .succeeded, counters .abandoned, counters .retried,
    counters .compensated, counters .discarded, incomplete⟩

theorem filter_keyed (jobs : List Job) {key : String} (named : key ≠ "") :
    ((keyed jobs).filter fun n => jobs[n]?.any (·.key = key)) = numbersOf (·.key = key) jobs := by
  rw [keyed, numbersOf, List.filter_filter]
  apply List.filter_congr
  intro n _
  cases jobs[n]? with
  | none => rfl
  | some job => by_cases same : job.key = key <;> simp [same, named]

theorem numbersOf_numbers (chosen : Job → Bool) (jobs : List Job) :
    List.Forall₂ (fun n job => jobs[n]? = some job) (numbersOf chosen jobs)
      (jobs.filter chosen) := by
  induction jobs using List.reverseRecOn with
  | nil => exact .nil
  | append_singleton jobs job ih =>
      have kept : List.Forall₂ (fun n other => (jobs ++ [job])[n]? = some other)
          (numbersOf chosen jobs) (jobs.filter chosen) := by
        exact ih.imp fun n other numbered => numbered_append numbered [job]
      rw [numbersOf_append, List.filter_append]
      apply List.rel_append kept
      by_cases picked : chosen job <;> simp [picked]

namespace Coordinator

variable {config config' : Config} {s t : Coordinator} {q q' : KeyQueue Ticket} {m : Move}
  {jobs : List Job} {plan : Plan} {n : Nat} {key : String}

theorem ending_afterDrive (worker : Nat) (job : Job) (returned : Resolution) :
    (afterDrive worker job returned).1 = job.ending returned := by
  unfold afterDrive Job.ending
  cases job.dropPanic <;> rfl

/-- What is certain in a run whose callers wait for their turns, with jobs that are apart and results
that are planned. -/
structure Rehearsed (plan : Plan) (jobs : List Job) (s : Coordinator) (q : KeyQueue Ticket) :
    Prop where
  sound : Sound s q
  recorded : Recorded (Drive.Heeds plan) jobs s q
  booked : Booked s
  enrolled : Enrolled jobs s q
  owned : Owned plan s
  untimed : s.policy.completionTimeout = none

theorem Rehearsed.of_transition (rehearsed : Rehearsed plan jobs s q) (apart : Apart jobs)
    (inLine : s.isInLine m = true) (planned : m.isPlanned plan = true)
    (move : Transition s q m t q') : Rehearsed plan (jobs ++ m.jobs) t q' := by
  obtain ⟨sound, recorded, booked, enrolled, owned, untimed⟩ := rehearsed
  exact ⟨sound.of_transition move,
    recorded.of_transition sound.custody owned.fitting move, booked.of_transition move,
    enrolled.of_transition sound recorded.charted.roster recorded.discarding inLine move,
    owned.of_transition recorded.charted apart untimed planned move,
    policy_of_transition move ▸ untimed⟩

/-- The moves of callers who wait for their turns and of whoever sends the planned results. -/
def Rehearsal (plan : Plan) (s : Coordinator) (m : Move) : Prop :=
  s.isInLine m = true ∧ m.isPlanned plan = true

theorem Plays.rehearsed (plays : Plays (Rehearsal plan) config jobs s) (apart : Apart jobs)
    (untimed : config.completionTimeout = none) : ∃ q, Rehearsed plan jobs s q := by
  obtain ⟨q, -, rehearsed⟩ := plays.induct
    (P := fun jobs s q => Apart jobs → Rehearsed plan jobs s q)
    (fun _ => ⟨.of_fresh config, .of_fresh config, .of_fresh config, .of_fresh config,
      .of_fresh plan config, untimed⟩)
    fun _ _ before keeps move apart =>
      (before apart.of_append).of_transition apart.of_append keeps.1 keeps.2 move
  exact ⟨q, rehearsed apart⟩

/-- All jobs have been brought and counted. -/
structure Complete (s : Coordinator) : Prop where
  idle : s.incomplete = 0
  returned : ∀ stage ∈ s.calls, stage.enqueues = false

theorem Sound.placed_of_complete (sound : Sound s q) (complete : s.Complete) : s.placed q = [] := by
  have shown := sound.ledger.incomplete sound.placed
  have idle : s.monitor.incomplete = 0 := complete.idle
  exact List.length_eq_zero_iff.mp (by omega)

namespace Enrolled

theorem lines (enrolled : Enrolled jobs s q) (sound : Sound s q) (complete : s.Complete) :
    q.lines = [] := by
  cases closed : s.channel.closed with
  | true => exact (enrolled.spent (.inl closed)).clear
  | false => exact sound.custody.lines_of_placed closed (sound.placed_of_complete complete)

theorem admissions_eq (enrolled : Enrolled jobs s q) (complete : s.Complete) :
    s.admissions = keyed jobs := by
  have listed := enrolled.listed
  rwa [enrols_of_quiet (quiet_iff.mpr complete.returned), List.append_nil] at listed

theorem admitted (enrolled : Enrolled jobs s q) (sound : Sound s q) (complete : s.Complete) :
    s.monitor.admitted = (keyed jobs).length := by
  have shown := sound.ledger.admitted
  have counted : tally Stage.admits s.calls = 0 := tally_eq_zero.mpr fun stage member => by
    have idle := complete.returned stage member
    cases stage with
    | admitting => cases idle
    | _ => rfl
  rw [counted, Nat.add_zero, enrolled.admissions_eq complete] at shown
  exact shown

theorem snapshot (enrolled : Enrolled jobs s q) (sound : Sound s q) (complete : s.Complete) :
    s.snapshot = .ok ⟨s.monitor, 0⟩ := by
  have none_queued : q.keyCount = 0 := by
    rw [KeyQueue.keyCount, enrolled.lines sound complete]
    rfl
  rw [Coordinator.snapshot, sound.custody.sound, ← none_queued]
  rfl

end Enrolled

theorem Rehearsed.placed (rehearsed : Rehearsed plan jobs s q) (complete : s.Complete) :
    s.placed q = [] := rehearsed.sound.placed_of_complete complete

theorem Rehearsed.admissions_eq (rehearsed : Rehearsed plan jobs s q) (complete : s.Complete) :
    s.admissions = keyed jobs := rehearsed.enrolled.admissions_eq complete

/-- The job was driven to its end, and that is all that was done with it. -/
inductive Concluded (plan : Plan) (jobs : List Job) (s : Coordinator) (n : Nat) : Prop where
  | intro {job : Job} {made : List JobCall} {resolution : Resolution}
      (numbered : jobs[n]? = some job)
      (ends : job.Ends plan resolution (made.map JobCall.renumbered))
      (work : s.work n = made.map (.called n job.key) ++
        [.driven n job.key (job.ending resolution)])

theorem Balanced.perm_endings (balanced : Balanced s q) (empty : s.placed q = []) :
    s.endings.Perm s.admissions := by
  apply List.perm_iff_count.mpr
  intro n
  have located := balanced n
  have placed := count_placed s q n
  rw [unended_of_placed empty, List.count_nil] at located
  rw [empty, List.count_nil] at placed
  omega

theorem Rehearsed.concluded_of_ended (rehearsed : Rehearsed plan jobs s q)
    (ended : n ∈ s.endings) : Concluded plan jobs s n := by
  have course := (rehearsed.recorded.charted.standing n).ended ended
  have unshed : ∀ key, .discarded n key ∉ s.work n := fun key member =>
    rehearsed.enrolled.kept n key (List.mem_of_mem_filter member)
  generalize worked : s.work n = events at course unshed
  cases course with
  | driven worker numbered traced returned =>
      refine .intro numbered (traced.ends returned) (worked.trans ?_)
      rw [ending_afterDrive, Job.ending, traced.ofJob.dropPanic, Job.ending]
  | dropped => exact absurd List.mem_cons_self (unshed _)

theorem Rehearsed.concluded (rehearsed : Rehearsed plan jobs s q) (complete : s.Complete)
    (admitted : n ∈ s.admissions) : Concluded plan jobs s n :=
  rehearsed.concluded_of_ended
    ((rehearsed.recorded.charted.balanced.perm_endings (rehearsed.placed complete)).mem_iff.mpr
      admitted)

theorem Concluded.callsOf {job : Job} {made : List JobCall} {resolution : Resolution}
    (work : s.work n = made.map (.called n job.key) ++
      [.driven n job.key (job.ending resolution)]) : s.callsOf n = made := by
  rw [Coordinator.callsOf, work, List.filterMap_append, calls_of_made_eq]
  exact List.append_nil made

theorem Concluded.script (concluded : Concluded plan jobs s n) {job : Job}
    (numbered : jobs[n]? = some job) :
    ∃ resolution, job.Ends plan resolution ((s.callsOf n).map JobCall.renumbered) := by
  obtain ⟨numbered', ends, work⟩ := concluded
  obtain rfl := Option.some.inj (numbered.symm.trans numbered')
  exact ⟨_, callsOf work ▸ ends⟩

theorem Concluded.agree (concluded : Concluded plan jobs s n) (concluded' : Concluded plan jobs t n) :
    (s.callsOf n).map JobCall.renumbered = (t.callsOf n).map JobCall.renumbered ∧
      (s.work n).flatMap Event.dues = (t.work n).flatMap Event.dues := by
  obtain ⟨numbered, ends, work⟩ := concluded
  obtain ⟨numbered', ends', work'⟩ := concluded'
  obtain rfl := Option.some.inj (numbered.symm.trans numbered')
  obtain ⟨rfl, same⟩ := ends.unique ends'
  refine ⟨?_, ?_⟩
  · rw [callsOf work, callsOf work', same]
  · simp only [work, work', List.flatMap_append, dues_called]

theorem owed_of_placed (ledger : Ledger s) (empty : s.placed q = []) : s.owed = [] := by
  simp only [placed, List.append_eq_nil_iff, taken, dropped, List.flatMap_eq_nil_iff] at empty
  obtain ⟨⟨-, workers⟩, calls⟩ := empty
  rw [owed, List.append_eq_nil_iff, List.flatMap_eq_nil_iff, List.flatMap_eq_nil_iff]
  constructor
  · intro worker member
    have untaken := workers worker member
    have closing := ledger.closingWorkers worker member
    cases worker with
    | releasing | resuming => cases untaken
    | shedding next left done => simp [Worker.taken] at untaken
    | counting done left => exact closing.eq_nil (lowers_of_taken untaken)
    | crashed done =>
        cases done with
        | none => rfl
        | some done => cases untaken
    | _ => rfl
  · intro stage member
    have undropped := calls stage member
    have closing := ledger.closingCalls stage member
    cases stage with
    | dropping tickets finishing =>
        rw [List.map_eq_nil_iff.mp undropped]
        rfl
    | discounting ticket left rest finishing =>
        have none_left : left = [] := closing.eq_nil (lowers_of_dropped undropped)
        have none_behind := List.map_eq_nil_iff.mp (List.append_eq_nil_iff.mp undropped).2
        rw [none_left, none_behind]
        rfl
    | _ => rfl

theorem tally_due (balanced : Balanced s q) (placed : Placed s q) (counter : Counter) :
    tally counter.weight s.due =
      tally (fun n => tally counter.weight ((s.work n).flatMap Event.dues)) s.admissions := by
  have ended : ∀ event ∈ s.history.toList, ∀ n ∈ event.ends, n ∈ s.admissions := by
    intro event member n ends
    have present := List.count_pos_iff.mpr (mem_endings member ends)
    have located := balanced n
    exact List.count_pos_iff.mp (by omega)
  simp only [due, tally_flatMap]
  apply tally_by_label (List.nodup_iff_count.mpr placed.admitted_le_one)
  intro event member
  cases event with
  | driven serial | discarded serial =>
      exact .inr ⟨serial, ended _ member serial (List.mem_singleton.mpr rfl), rfl⟩
  | _ => exact .inl rfl

theorem Charted.dues_of_unended {fits : Drive → Instant → Completions → Prop}
    (charted : Charted fits jobs s q) (unended : n ∉ s.endings) :
    (s.work n).flatMap Event.dues = [] := by
  by_cases driven : n ∈ s.underway
  · obtain ⟨ticket, drive, present, rfl⟩ := mem_underway.mp driven
    obtain ⟨made, -, worked⟩ := (charted.standing ticket.serial).started ticket drive present rfl
    rw [worked, dues_called]
  · rw [(charted.standing n).unstarted unended driven]
    rfl

theorem Rehearsed.read_le (rehearsed : Rehearsed plan jobs s q) (counter : Counter) :
    counter.read s.monitor ≤
      tally (fun n => tally counter.weight ((s.work n).flatMap Event.dues)) s.admissions := by
  have shown := rehearsed.booked counter
  rw [tally_due rehearsed.recorded.charted.balanced rehearsed.sound.placed] at shown
  omega

theorem Rehearsed.counter (rehearsed : Rehearsed plan jobs s q) (complete : s.Complete)
    (counter : Counter) : counter.read s.monitor =
      tally (fun n => tally counter.weight ((s.work n).flatMap Event.dues)) (keyed jobs) := by
  have shown := rehearsed.booked counter
  rw [owed_of_placed rehearsed.sound.ledger (rehearsed.placed complete), tally_nil, Nat.add_zero] at shown
  rw [shown, tally_due rehearsed.recorded.charted.balanced rehearsed.sound.placed,
    rehearsed.admissions_eq complete]

theorem Rehearsed.admitted (rehearsed : Rehearsed plan jobs s q) (complete : s.Complete) :
    s.monitor.admitted = (keyed jobs).length :=
  rehearsed.enrolled.admitted rehearsed.sound complete

theorem Rehearsed.snapshot (rehearsed : Rehearsed plan jobs s q) (complete : s.Complete) :
    s.snapshot = .ok ⟨s.monitor, 0⟩ :=
  rehearsed.enrolled.snapshot rehearsed.sound complete

theorem Rehearsed.monitor_eq (rehearsed : Rehearsed plan jobs s q)
    (rehearsed' : Rehearsed plan jobs t q') (complete : s.Complete) (complete' : t.Complete) :
    s.monitor = t.monitor := by
  refine Monitor.eq_of_counters ?_ ?_ ?_
  · rw [rehearsed.admitted complete, rehearsed'.admitted complete']
  · exact complete.idle.trans complete'.idle.symm
  · intro counter
    rw [rehearsed.counter complete, rehearsed'.counter complete']
    apply tally_congr
    intro n member
    have concluded := rehearsed.concluded complete (rehearsed.admissions_eq complete ▸ member)
    have concluded' := rehearsed'.concluded complete' (rehearsed'.admissions_eq complete' ▸ member)
    rw [(concluded.agree concluded').2]

theorem admitsOn_eq_filter {events : List Event} (key : String)
    (filed : ∀ n other, .admitted n other ∈ events → ∃ job, jobs[n]? = some job ∧ job.key = other) :
    events.filterMap (Event.admitsOn? key) =
      (events.flatMap Event.admits).filter fun n => jobs[n]?.any (·.key = key) := by
  induction events with
  | nil => rfl
  | cons event rest ih =>
      have others := ih fun n other member => filed n other (List.mem_cons_of_mem _ member)
      rw [List.flatMap_cons, List.filter_append, ← others]
      cases event with
      | admitted n other =>
          obtain ⟨job, numbered, rfl⟩ := filed n other List.mem_cons_self
          by_cases same : job.key = key <;> simp [Event.admitsOn?, Event.admits, numbered, same]
      | _ => rfl

theorem Enrolled.admissionsOn_eq (enrolled : Enrolled jobs s q)
    {fits : Drive → Instant → Completions → Prop} (recorded : Recorded fits jobs s q)
    (complete : s.Complete) (key : String) :
    s.admissionsOn key = (keyed jobs).filter fun n => jobs[n]?.any (·.key = key) := by
  rw [← enrolled.admissions_eq complete]
  apply admitsOn_eq_filter key
  intro n other member
  obtain ⟨_, _, _, ordered⟩ := recorded.ordered other
  exact ordered.filed n (List.mem_filterMap.mpr ⟨_, member, if_pos rfl⟩)

theorem Rehearsed.admissionsOn_eq (rehearsed : Rehearsed plan jobs s q) (complete : s.Complete)
    (key : String) :
    s.admissionsOn key = (keyed jobs).filter fun n => jobs[n]?.any (·.key = key) :=
  rehearsed.enrolled.admissionsOn_eq rehearsed.recorded complete key

theorem Rehearsed.concluded_of_mem (rehearsed : Rehearsed plan jobs s q) (complete : s.Complete)
    (member : n ∈ s.admissionsOn key) : Concluded plan jobs s n := by
  rw [rehearsed.admissionsOn_eq complete, ← rehearsed.admissions_eq complete] at member
  exact rehearsed.concluded complete (List.mem_of_mem_filter member)

/-- The calls into the jobs of the key so far, each with the number of its job. The completions that
a compensator is given are numbered from zero on. -/
def scriptOn (s : Coordinator) (key : String) : List (Nat × JobCall) :=
  (s.callsOn key).map (Prod.map id JobCall.renumbered)

theorem Serial.scriptOn (serial : Serial jobs s key) : s.scriptOn key =
    (s.admissionsOn key).flatMap fun n => ((s.callsOf n).map JobCall.renumbered).map (n, ·) := by
  rw [Coordinator.scriptOn, serial.calls, List.map_flatMap]
  simp only [List.map_map, Function.comp_def, Prod.map, id]

theorem Rehearsed.scripts (rehearsed : Rehearsed plan jobs s q) (complete : s.Complete)
    (serial : Serial jobs s key) (named : key ≠ "") :
    ∃ scripts, Scripts plan (jobs.filter (·.key = key)) scripts ∧
      (s.scriptOn key).map (·.2) = scripts.flatten := by
  refine ⟨(s.admissionsOn key).map fun n => (s.callsOf n).map JobCall.renumbered, ?_, ?_⟩
  · have numbers := numbersOf_numbers (·.key = key) jobs
    rw [← filter_keyed jobs named, ← rehearsed.admissionsOn_eq complete] at numbers
    have concluded : ∀ n ∈ s.admissionsOn key, Concluded plan jobs s n := fun n member =>
      rehearsed.concluded_of_mem complete member
    apply List.forall₂_map_right_iff.mpr
    exact ((List.forall₂_and_left _ _).mpr ⟨concluded, numbers⟩).flip.imp
      fun job n known => known.1.script known.2
  · rw [serial.scriptOn, List.map_flatMap, ← List.flatMap_def]
    simp only [List.map_map, Function.comp_def]

/-- What two runs with the same jobs have in common, whatever the order of their moves. -/
structure Agreement (plan : Plan) (jobs : List Job) (s t : Coordinator) : Prop where
  calls : ∀ key, s.scriptOn key = t.scriptOn key
  /-- The calls into the jobs of a key are those of driving these jobs alone. -/
  alone : ∀ key, key ≠ "" → ∀ policy now completions made, policy.completionTimeout = none →
    Alone plan policy (jobs.filter (·.key = key)) now completions made →
      (s.scriptOn key).map (·.2) = made.map JobCall.renumbered
  snapshot : ∃ snapshot, s.snapshot = .ok snapshot ∧ t.snapshot = .ok snapshot

/-- The result does not depend on the schedule. -/
theorem agreement_of_plays (apart : Apart jobs)
    (plays : Plays (Rehearsal plan) config jobs s) (untimed : config.completionTimeout = none)
    (plays' : Plays (Rehearsal plan) config' jobs t) (untimed' : config'.completionTimeout = none)
    (complete : s.Complete) (complete' : t.Complete) : Agreement plan jobs s t := by
  obtain ⟨q, rehearsed⟩ := plays.rehearsed apart untimed
  obtain ⟨q', rehearsed'⟩ := plays'.rehearsed apart untimed'
  obtain ⟨_, custody, recorded⟩ := plays.recorded
  obtain ⟨_, custody', recorded'⟩ := plays'.recorded
  refine ⟨?_, ?_, ?_⟩
  · intro key
    rw [(recorded.serial custody key).scriptOn, (recorded'.serial custody' key).scriptOn]
    have admitted : t.admissionsOn key = s.admissionsOn key := by
      rw [rehearsed.admissionsOn_eq complete, rehearsed'.admissionsOn_eq complete']
    rw [admitted]
    -- The runs are not compared step by step: both have followed the plot of each job.
    apply List.flatMap_congr
    intro n member
    have concluded := rehearsed.concluded_of_mem complete member
    have concluded' := rehearsed'.concluded_of_mem complete' (admitted ▸ member)
    rw [(concluded.agree concluded').1]
  · intro key named policy now completions made untimed alone
    obtain ⟨scripts, ends, same⟩ := rehearsed.scripts complete (recorded.serial custody key) named
    have own : ∀ job ∈ jobs.filter (·.key = key), job.Private := fun job member =>
      apart.own job (List.mem_of_mem_filter member)
    obtain ⟨-, scripts', ends', same'⟩ := alone.scripts own untimed
    rw [same, same', ends.unique ends']
  · refine ⟨_, rehearsed.snapshot complete, ?_⟩
    rw [rehearsed.monitor_eq rehearsed' complete complete']
    exact rehearsed'.snapshot complete'

/-- Whether the moves are made by callers who wait for their turns and send the planned results. -/
def rehearses (plan : Plan) : Coordinator → List Move → Bool
  | _, [] => true
  | s, m :: rest => s.isInLine m && m.isPlanned plan && rehearses plan (s.move m) rest

theorem Plays.rehearse (plays : Plays (Rehearsal plan) config jobs s) {moves : List Move}
    (possible : s.canFollow moves = true) (keeps : s.rehearses plan moves = true) :
    Plays (Rehearsal plan) config (jobs ++ moves.flatMap Move.jobs) (s.follow moves) := by
  induction moves generalizing jobs s with
  | nil => exact (List.append_nil jobs).symm ▸ plays
  | cons m rest ih =>
      simp only [canFollow, rehearses, Bool.and_eq_true] at possible keeps
      rw [List.flatMap_cons, ← List.append_assoc]
      exact ih (plays.step m possible.1 keeps.1) possible.2 keeps.2

/-- One worker drives two jobs one after the other. Two workers drive the second job while the first
one is being handed out, and then the coordinator is drained. The first job is called as if it were
driven alone. -/
theorem agreement_of_one_and_two_workers :
    let first := (Job.new "A" fun n =>
      if n = 1 then .fails ⟨["no"]⟩ else .writes [.gate "a"]).withMaxRetries 1
    let second := Job.new "B" fun _ => .writes []
    let enqueue (job : Job) : List Move :=
      [.begin (.enqueue job), .call 0, .call 0, .call 0, .call 0, .leave 0]
    let plan : Plan := fun _ => .success
    let policy : RetryPolicy := ⟨none, none⟩
    let pair := (Config.default .single).withWorkers 2
    let moves := enqueue first ++ enqueue second ++ List.replicate 7 (.worker 0) ++
      [.resolve "a" .success] ++ List.replicate 20 (.worker 0)
    let moves' := enqueue first ++ [.worker 0] ++ enqueue second ++ List.replicate 11 (.worker 1) ++
      List.replicate 6 (.worker 0) ++ [.begin .shutdown, .call 0, .call 0, .resolve "a" .success] ++
      List.replicate 7 (.worker 0)
    let s := (fresh (.default .single)).follow moves
    let t := (fresh pair).follow moves'
    (Apart [first, second] ∧ Plays (Rehearsal plan) (.default .single) [first, second] s ∧
        Plays (Rehearsal plan) pair [first, second] t ∧ s.Complete ∧ t.Complete) ∧
      Agreement plan [first, second] s t ∧
      ∃ now completions made, Alone plan policy [first] now completions made ∧
        (s.scriptOn "A").map (·.2) = made.map JobCall.renumbered := by
  intro first second enqueue plan policy pair moves moves' s t
  have silent : ∀ gate, ¬ second.Uses gate := by
    rintro gate (⟨number, named⟩ | ⟨compensator, failed, present, -⟩)
    · cases named
    · cases present
  have apart : Apart [first, second] := by
    refine ⟨?_, List.pairwise_pair.mpr fun gate _ => silent gate⟩
    have own : first.Private := by
      refine ⟨?_, fun _ present => nomatch present⟩
      intro number id
      by_cases one : number = 1 <;> simp [first, Job.new, Job.withMaxRetries, Call.started, one]
    have own' : second.Private := ⟨fun _ _ => List.not_mem_nil, fun _ present => nomatch present⟩
    simp [own, own']
  have start : Plays (Rehearsal plan) (.default .single) [] (fresh (.default .single)) := .start rfl
  have start' : Plays (Rehearsal plan) pair [] (fresh pair) := .start rfl
  have possible : (fresh (.default .single)).canFollow moves = true := by decide +kernel
  have possible' : (fresh pair).canFollow moves' = true := by decide +kernel
  have keeps : (fresh (.default .single)).rehearses plan moves = true := by decide +kernel
  have keeps' : (fresh pair).rehearses plan moves' = true := by decide +kernel
  have plays := start.rehearse possible keeps
  have plays' := start'.rehearse possible' keeps'
  have complete : s.Complete := ⟨by decide +kernel, by decide +kernel⟩
  have complete' : t.Complete := ⟨by decide +kernel, by decide +kernel⟩
  have agreement : Agreement plan [first, second] s t :=
    agreement_of_plays apart plays rfl plays' rfl complete complete'
  have solo := ((solo_drive plan policy first 20).resolve "a").finish 20
  have alone := Alone.start.next solo (by decide +kernel)
  exact ⟨⟨apart, plays, plays', complete, complete'⟩, agreement, _, _, _, alone,
    agreement.alone "A" (by decide) policy _ _ _ rfl alone⟩

end Coordinator

end KeyedJobs
