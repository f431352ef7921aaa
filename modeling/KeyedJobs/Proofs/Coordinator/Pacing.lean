import KeyedJobs.Coordinator.Schedule
import KeyedJobs.Proofs.Coordinator.Independence
import KeyedJobs.Proofs.Coordinator.WindingDown
import KeyedJobs.Proofs.Retry.Labor

/-! # Jobs that are left to time

Nobody may have to send results to the jobs of a run, and each of them may have a last attempt. Then
every step of a worker or of a call leaves less to do. If their sleeps end, then as long as the
gauge is above zero somebody can take a step, now or when time has passed.
-/

namespace KeyedJobs

/-- The jobs are left to time, no call starts more than `width` writes, and each job has a last
attempt. -/
structure Timely (plan : Plan) (last : Nat → Nat) (width : Nat) (jobs : List Job) : Prop where
  paced : ∀ job ∈ jobs, job.Paced width
  fresh : ∀ job ∈ jobs, job.attemptCount = 0
  endsBy : ∀ (n : Nat) (job : Job), jobs[n]? = some job → job.EndsBy plan (last n)

theorem Timely.apart {plan : Plan} {last : Nat → Nat} {width : Nat} {jobs : List Job}
    (timely : Timely plan last width jobs) : Apart jobs where
  own job member := (timely.paced job member).private
  secret := by
    apply List.pairwise_of_forall_mem_list
    intro job member other _ gate uses
    exact absurd uses ((timely.paced job member).not_uses gate)

/-- What the worker's drive waits for is left to time. -/
def Worker.Rests (cs : Completions) : Worker → Prop
  | .driving _ drive => drive.Rests cs
  | _ => True

/-- What is left of the worker's drive. -/
def Worker.labor (last : Nat → Nat) (width : Nat) : Worker → Nat
  | .driving ticket drive => drive.labor (last ticket.serial) width
  | _ => 0

namespace Coordinator

variable {s t : Coordinator} {q q' : KeyQueue Ticket} {m : Move} {jobs : List Job} {plan : Plan}
  {fits : Drive → Instant → Completions → Prop} {last : Nat → Nat} {width most : Nat}
  {ticket : Ticket} {drive : Drive}

/-- Whether the move is a step of a worker or of a call. -/
def Move.isStep : Move → Bool
  | .worker _ | .call _ => true
  | _ => false

/-- The drives wait for nothing but time, if the sleeps of the jobs end. -/
structure Restful (jobs : List Job) (s : Coordinator) : Prop where
  tidy : s.completions.Tidy
  rests : (∀ job ∈ jobs, job.Timed) → ∀ worker ∈ s.workers, worker.Rests s.completions

/-- No driven job is about to make an attempt after its last one. -/
def EndsBy (last : Nat → Nat) (s : Coordinator) : Prop :=
  ∀ ticket drive, .driving ticket drive ∈ s.workers →
    drive.phase = .ready → drive.calls < last ticket.serial

/-- What is left of the drives that are run. -/
def labor (last : Nat → Nat) (width : Nat) (s : Coordinator) : Nat :=
  tally (Worker.labor last width) s.workers

/-- More than the number of steps that the threads under way can take. One unit of effort counts for
more than a whole drive. -/
def toil (last : Nat → Nat) (width most : Nat) (s : Coordinator) (q : KeyQueue Ticket) : Nat :=
  ((most + 1) * (width + 4) + 1) * s.effort q + s.labor last width

theorem Restful.of_fresh (config : Config) : Restful [] (fresh config) where
  tidy := .empty
  rests _ worker member := by
    rw [List.eq_of_mem_replicate member]
    trivial

theorem Restful.append (restful : Restful jobs s) (more : List Job) : Restful (jobs ++ more) s where
  tidy := restful.tidy
  rests timed := restful.rests fun job member => timed job (List.mem_append_left _ member)

theorem Charted.traced (charted : Charted fits jobs s q)
    (member : .driving ticket drive ∈ s.workers) :
    jobs[ticket.serial]? = some ticket.job ∧
      ∃ made, Traced fits s.policy ticket.job drive made := by
  have underway := mem_bearings_of_driving member
  obtain ⟨made, traced, -⟩ := (charted.standing ticket.serial).started ticket drive underway rfl
  exact ⟨charted.roster.numbered_bearing underway (List.mem_singleton.mpr rfl), made, traced⟩

theorem Restful.of_drive (restful : Restful jobs s) (charted : Charted fits jobs s q)
    (paced : ∀ job ∈ jobs, job.Paced width) {i : Nat}
    (found : s.workers[i]? = some (.driving ticket drive)) (going : drive.resolution? = none)
    (workers : t.workers = s.workers)
    (stored : t.completions = (drive.step s.policy s.now s.completions).completions) :
    Restful jobs
      (t.setWorker i (.driving ticket (drive.step s.policy s.now s.completions).drive)) := by
  have present := List.mem_of_getElem? found
  obtain ⟨numbered, made, traced⟩ := charted.traced present
  have job := paced _ (List.mem_of_getElem? numbered)
  have tidy := restful.tidy
  have step : DriveStep s.policy s.now s.completions drive _ _ _ := Drive.step_driveStep going
  obtain ⟨change, -⟩ := Drive.effect_of_driveStep job.private traced.ofJob tidy step
  rw [← stored] at step change
  refine ⟨change.tidy, fun timed worker member => ?_⟩
  rw [Coordinator.setWorker, workers] at member
  rcases List.mem_or_eq_of_mem_set member with other | rfl
  · have rests := restful.rests timed worker other
    cases worker with
    | driving ticket' drive' =>
        -- The store is shared, so this step may poll what another drive waits for.
        refine rests.kept (fun id passes => ?_) fun id clocked => ?_
        · exact Drive.store_induct (P := (·.Passes id)) (fun tidy passes => passes.poll tidy)
            (fun passes => passes.add) job traced.ofJob tidy step passes
        · exact Drive.store_induct (P := (·.Clocked id)) (fun tidy clocked => clocked.poll tidy)
            (fun clocked => clocked.add) job traced.ofJob tidy step clocked
    | _ => trivial
  · exact (restful.rests timed _ present).of_driveStep job
      (timed _ (List.mem_of_getElem? numbered)) traced.ofJob tidy step

theorem Restful.of_transition (restful : Restful jobs s) (charted : Charted fits jobs s q)
    (paced : ∀ job ∈ jobs, job.Paced width) (move : Transition s q m t q') : Restful jobs t := by
  cases move with
  | @worker i old new t q' found step =>
      have workers := workers_of_workerStep step
      rcases store_of_workerStep step with ⟨store, begins⟩ | ⟨ticket, drive, rfl, going, rfl, stored⟩
      · refine ⟨(store ▸ restful.tidy : t.completions.Tidy), fun timed worker member => ?_⟩
        rw [setWorker, workers] at member
        rcases List.mem_or_eq_of_mem_set member with before | rfl
        · have rests := restful.rests timed worker before
          exact store ▸ rests
        · cases worker with
          | driving ticket drive =>
              obtain rfl := begins ticket drive rfl
              exact .begin ticket.job t.completions
          | _ => trivial
      · exact restful.of_drive charted paced found going workers stored
  | @call i old new t q' found step =>
      have store := completions_of_callStep step
      refine ⟨(store ▸ restful.tidy : t.completions.Tidy), fun timed worker member => ?_⟩
      rw [setCall, workers_of_callStep step] at member
      have rests := restful.rests timed worker member
      rw [← store] at rests
      exact rests
  | resolve gate result =>
      have change : Completions.Change (fun _ => False) _ s.completions _ :=
        Completions.change_resolve restful.tidy gate result
      refine ⟨change.tidy, fun timed worker member => ?_⟩
      have rests := restful.rests timed worker member
      cases worker with
      | driving ticket drive =>
          refine rests.kept (fun id passes => ?_) fun id clocked => ?_
          · exact passes.same (passes.entry_resolve gate result)
          · exact clocked.same (clocked.passes.entry_resolve gate result)
      | _ => trivial
  | enter | exit | elapse | abandon => exact ⟨restful.tidy, restful.rests⟩

/-- What is certain in a run whose callers wait for their turns, with jobs that are left to time. -/
structure Ongoing (jobs : List Job) (s : Coordinator) (q : KeyQueue Ticket) : Prop where
  sound : Sound s q
  recorded : Recorded Anyhow jobs s q
  enrolled : Enrolled jobs s q
  restful : Restful jobs s

theorem Ongoing.of_fresh (config : Config) : Ongoing [] (fresh config) .empty :=
  ⟨.of_fresh config, .of_fresh config, .of_fresh config, .of_fresh config⟩

theorem Ongoing.of_transition (ongoing : Ongoing jobs s q) (paced : ∀ job ∈ jobs, job.Paced width)
    (inLine : s.isInLine m = true) (move : Transition s q m t q') :
    Ongoing (jobs ++ m.jobs) t q' := by
  obtain ⟨sound, recorded, enrolled, restful⟩ := ongoing
  exact ⟨sound.of_transition move,
    recorded.of_transition sound.custody (fun _ _ _ => trivial) move,
    enrolled.of_transition sound recorded.charted.roster recorded.discarding inLine move,
    (restful.of_transition recorded.charted paced move).append m.jobs⟩

theorem Rehearsed.endsBy (rehearsed : Rehearsed plan jobs s q)
    (timely : Timely plan last width jobs) : s.EndsBy last := by
  intro ticket drive member ready
  obtain ⟨numbered, made, traced⟩ := rehearsed.recorded.charted.traced member
  have fresh := timely.fresh _ (List.mem_of_getElem? numbered)
  have counts := traced.counts (timely.endsBy _ _ numbered) fresh
  simp only [Drive.plot, ready, Plot.Counts] at counts
  exact counts.1

theorem Charted.endsBy (charted : Charted fits jobs s q) {retries : Nat}
    (fresh : ∀ job ∈ jobs, job.attemptCount = 0) (allowed : ∀ job ∈ jobs, job.maxRetries ≤ retries)
    (limited : retries < maxAttempts) : s.EndsBy fun _ => retries + 1 := by
  intro ticket drive member ready
  obtain ⟨numbered, made, traced⟩ := charted.traced member
  have present := List.mem_of_getElem? numbered
  have few := allowed _ present
  have counted := traced.counted (fresh _ present) (Nat.lt_of_le_of_lt few limited)
  have starts : drive.calls ≤ drive.job.maxRetries := counted.allowed (by rw [ready]; rfl)
  have same : drive.job.maxRetries = ticket.job.maxRetries := by rw [← traced.ofJob.kept]
  change drive.calls < retries + 1
  omega

/-- A worker makes a step of its drive, or it leaves less effort and at most begins a drive. -/
theorem drive_or_less (custody : Custody s q) {old new : Worker}
    (step : WorkerStep s q old new t q') :
    (∃ ticket drive, old = .driving ticket drive ∧ drive.resolution? = none ∧
        new = .driving ticket (drive.step s.policy s.now s.completions).drive ∧
        t.backlog q' = s.backlog q) ∨
      (∀ ticket drive, new = .driving ticket drive → drive = Drive.begin ticket.job) ∧
        t.backlog q' + new.effort < s.backlog q + old.effort := by
  by_cases driven : ∃ ticket drive, old = .driving ticket drive ∧ drive.resolution? = none
  · obtain ⟨ticket, drive, rfl, going⟩ := driven
    cases step with
    | drive log _ taken =>
        subst taken
        exact .inl ⟨_, _, rfl, going, rfl, rfl⟩
    | endDrive _ ended =>
        rw [going] at ended
        cases ended
  · refine .inr ⟨?_, ?_⟩
    · rcases store_of_workerStep step with ⟨-, begins⟩ | ⟨ticket, drive, same, going, -⟩
      · exact begins
      · exact absurd ⟨ticket, drive, same, going⟩ driven
    · rcases effort_of_workerStep custody step with less | ⟨ticket, drive, drive', rfl, drives, -⟩
      · exact less
      · cases step with
        | drive _ going => exact absurd ⟨_, _, rfl, going⟩ driven
        | endDrive => cases drives

theorem labor_of_begins (width : Nat) (few : ∀ n, last n ≤ most) {worker : Worker}
    (begins : ∀ ticket drive, worker = .driving ticket drive → drive = Drive.begin ticket.job) :
    worker.labor last width ≤ (most + 1) * (width + 4) := by
  cases worker with
  | driving ticket drive =>
      obtain rfl := begins ticket drive rfl
      exact Nat.mul_le_mul_right (width + 4) (Nat.succ_le_succ (few ticket.serial))
  | _ => exact Nat.zero_le _

theorem labor_setWorker (last : Nat → Nat) (width : Nat) {i : Nat} {old : Worker}
    (found : s.workers[i]? = some old) (workers : t.workers = s.workers) (new : Worker) :
    (t.setWorker i new).labor last width + old.labor last width =
      s.labor last width + new.labor last width := by
  rw [labor, setWorker, workers]
  exact tally_set (Worker.labor last width) found new

theorem Ongoing.toil_of_worker (ongoing : Ongoing jobs s q) (paced : ∀ job ∈ jobs, job.Paced width)
    (few : ∀ n, last n ≤ most) (endsBy : s.EndsBy last) {i : Nat} {old new : Worker}
    (found : s.workers[i]? = some old) (possible : s.canStepWorker old = true)
    (step : WorkerStep s q old new t q') :
    (t.setWorker i new).toil last width most q' < s.toil last width most q := by
  have effort := effort_setWorker found step
  have labor := labor_setWorker last width found (workers_of_workerStep step) new
  unfold toil
  rcases drive_or_less ongoing.sound.custody step with
    ⟨ticket, drive, rfl, going, rfl, same⟩ | ⟨begins, less⟩
  · have present := List.mem_of_getElem? found
    obtain ⟨numbered, made, traced⟩ := ongoing.recorded.charted.traced present
    have ready : drive.canStep s.now s.completions = true := by
      simpa [canStepWorker, going] using possible
    have step : DriveStep s.policy s.now s.completions drive _ _ _ := Drive.step_driveStep going
    have limits : drive.Paced (last ticket.serial) width ticket.job :=
      ⟨paced _ (List.mem_of_getElem? numbered), traced.ofJob, endsBy ticket drive present⟩
    have fewer := limits.labor_of_driveStep ongoing.restful.tidy ready step
    have even : (t.setWorker i (.driving ticket (drive.step s.policy s.now s.completions).drive)).effort
        q' = s.effort q := by
      simp only [Worker.effort] at effort
      omega
    simp only [Worker.labor] at labor
    rw [even]
    omega
  · have worth := labor_of_begins width few begins
    have lower : (t.setWorker i new).effort q' + 1 ≤ s.effort q := by omega
    have scaled := Nat.mul_le_mul_left ((most + 1) * (width + 4) + 1) lower
    rw [Nat.mul_succ] at scaled
    omega

theorem toil_of_call {i : Nat} {old new : Stage} (found : s.calls[i]? = some old)
    (step : CallStep s q old new t q') :
    (t.setCall i new).toil last width most q' < s.toil last width most q := by
  have effort := effort_setCall found step
  have less := effort_of_callStep step
  have same : (t.setCall i new).labor last width = s.labor last width := by
    rw [labor, setCall, workers_of_callStep step]
    rfl
  have lower : (t.setCall i new).effort q' + 1 ≤ s.effort q := by omega
  have scaled := Nat.mul_le_mul_left ((most + 1) * (width + 4) + 1) lower
  rw [Nat.mul_succ] at scaled
  unfold toil
  omega

/-- Every step leaves less to do. -/
theorem Ongoing.toil_of_step (ongoing : Ongoing jobs s q) (paced : ∀ job ∈ jobs, job.Paced width)
    (few : ∀ n, last n ≤ most) (endsBy : s.EndsBy last) (possible : s.canMove m = true)
    (steps : m.isStep = true) (move : Transition s q m t q') :
    t.toil last width most q' < s.toil last width most q := by
  cases move with
  | worker found step =>
      rw [canMove, found, Option.any_some] at possible
      exact ongoing.toil_of_worker paced few endsBy found possible step
  | call found step => exact toil_of_call found step
  | _ => cases steps

theorem effort_of_enter {request : Request} (move : Transition s q (.begin request) t q') :
    t.effort q' = s.effort q + (s.firstStage request).effort := by
  cases move with
  | enter =>
      simp only [effort, backlog, tally_append, tally_cons, tally_nil]
      omega

theorem toil_of_enter {request : Request} (move : Transition s q (.begin request) t q') :
    t.toil last width most q' =
      s.toil last width most q +
        ((most + 1) * (width + 4) + 1) * (s.firstStage request).effort := by
  have same : t.labor last width = s.labor last width := by
    cases move
    rfl
  rw [toil, toil, effort_of_enter move, same, Nat.mul_add]
  omega

theorem toil_of_leave {i : Nat} (move : Transition s q (.leave i) t q') :
    t.toil last width most q' = s.toil last width most q := by
  cases move with
  | exit found =>
      have erased : tally Stage.effort (s.calls.eraseIdx i) + 0 = tally Stage.effort s.calls :=
        tally_eraseIdx Stage.effort found
      rw [Nat.add_zero] at erased
      simp only [toil, effort, backlog, labor, erased]

theorem toil_of_elapse {instant : Instant} (move : Transition s q (.elapse instant) t q') :
    t.toil last width most q' = s.toil last width most q := by
  cases move
  rfl

theorem toil_of_fresh (config : Config) : (fresh config).toil last width most .empty =
    ((most + 1) * (width + 4) + 1) * config.workers.toNat := by
  have workers : tally Worker.effort (fresh config).workers = config.workers.toNat := by
    rw [← List.length_replicate (n := config.workers.toNat) (a := Worker.receiving), ← tally_one]
    apply tally_congr
    intro worker member
    rw [List.eq_of_mem_replicate member]
    rfl
  have drives : (fresh config).labor last width = 0 := tally_workers_fresh config rfl
  have backlog : (fresh config).backlog .empty = 0 := rfl
  have calls : tally Stage.effort (fresh config).calls = 0 := rfl
  simp only [toil, effort, backlog, workers, calls, drives, Nat.zero_add, Nat.add_zero]

theorem of_nextStep? (next : s.nextStep? = some m) : s.canMove m = true ∧ m.isStep = true := by
  unfold nextStep? at next
  cases worker : s.workers.findIdx? s.canStepWorker with
  | some i =>
      rw [worker] at next
      obtain rfl := Option.some.inj next
      obtain ⟨inside, possible, -⟩ := List.findIdx?_eq_some_iff_getElem.mp worker
      exact ⟨by simp [canMove, inside, possible], rfl⟩
  | none =>
      rw [worker] at next
      obtain ⟨i, call, rfl⟩ := Option.map_eq_some_iff.mp next
      obtain ⟨inside, possible, -⟩ := List.findIdx?_eq_some_iff_getElem.mp call
      exact ⟨by simp [canMove, inside, possible], rfl⟩

theorem nextStep?_eq_none (still : s.nextStep? = none) :
    (∀ worker ∈ s.workers, s.canStepWorker worker = false) ∧
      ∀ stage ∈ s.calls, s.canStepCall stage = false := by
  unfold nextStep? at still
  cases worker : s.workers.findIdx? s.canStepWorker with
  | some i => simp [worker] at still
  | none =>
      rw [worker] at still
      have calls := Option.map_eq_none_iff.mp still
      exact ⟨List.findIdx?_eq_none_iff.mp worker, List.findIdx?_eq_none_iff.mp calls⟩

theorem exists_nextStep? {worker : Worker} (member : worker ∈ s.workers)
    (possible : s.canStepWorker worker = true) : ∃ m, s.nextStep? = some m := by
  cases next : s.nextStep? with
  | some m => exact ⟨m, rfl⟩
  | none =>
      have stuck := (nextStep?_eq_none next).1 worker member
      rw [possible] at stuck
      cases stuck

/-- Somebody can take a step, now or when time has passed up to the next instant at which somebody
wakes. -/
inductive Lively (s : Coordinator) : Prop where
  | now {m : Move} (next : s.nextStep? = some m)
  | later {due : Instant} {m : Move} (still : s.nextStep? = none) (wakes : s.wakeAt? = some due)
      (ahead : s.now < due) (next : (s.move (.elapse due)).nextStep? = some m)

theorem Lively.of_call {stage : Stage} (member : stage ∈ s.calls)
    (possible : s.canStepCall stage = true) : s.Lively := by
  cases next : s.nextStep? with
  | some m => exact .now next
  | none =>
      have stuck := (nextStep?_eq_none next).2 stage member
      rw [possible] at stuck
      cases stuck

theorem drive_of_wakeAt? (patient : ∀ stage ∈ s.calls, stage.wakeAt? = none) {due : Instant}
    (wakes : s.wakeAt? = some due) :
    ∃ ticket drive, .driving ticket drive ∈ s.workers ∧ drive.wakeAt? s.completions = some due := by
  have member := List.min?_mem wakes
  rcases List.mem_append.mp member with atWorker | atCall
  · obtain ⟨worker, present, wakes⟩ := List.mem_filterMap.mp atWorker
    cases worker with
    | driving ticket drive => exact ⟨ticket, drive, present, wakes⟩
    | _ => cases wakes
  · obtain ⟨stage, present, wakes⟩ := List.mem_filterMap.mp atCall
    rw [patient stage present] at wakes
    cases wakes

theorem exists_wakeAt? (member : .driving ticket drive ∈ s.workers) {instant : Instant}
    (wakes : drive.wakeAt? s.completions = some instant) : ∃ due, s.wakeAt? = some due := by
  rw [← Option.isSome_iff_exists, wakeAt?, List.isSome_min?_iff]
  apply List.ne_nil_of_mem (a := instant)
  exact List.mem_append_left _ (List.mem_filterMap.mpr ⟨_, member, wakes⟩)

theorem Restful.lively_of_drive (restful : Restful jobs s) (timed : ∀ job ∈ jobs, job.Timed)
    (patient : ∀ stage ∈ s.calls, stage.wakeAt? = none) (still : s.nextStep? = none)
    (member : .driving ticket drive ∈ s.workers) : s.Lively := by
  have stuck : ∀ ticket drive, .driving ticket drive ∈ s.workers →
      drive.resolution? = none ∧ drive.canStep s.now s.completions = false := by
    intro ticket drive member
    simpa [canStepWorker] using (nextStep?_eq_none still).1 _ member
  obtain ⟨going, halted⟩ := stuck ticket drive member
  obtain ⟨instant, wakes⟩ := (restful.rests timed _ member).exists_wakeAt? going halted
  obtain ⟨due, wakes⟩ := exists_wakeAt? member wakes
  obtain ⟨ticket, drive, member, first⟩ := drive_of_wakeAt? patient wakes
  have rests : drive.Rests s.completions := restful.rests timed _ member
  have possible : (s.move (.elapse due)).canStepWorker (.driving ticket drive) = true := by
    have ready : drive.canStep due s.completions = true := rests.canStep_of_wakeAt? first
    simp [canStepWorker, move, ready]
  obtain ⟨m, next⟩ := exists_nextStep? (s := s.move (.elapse due)) member possible
  exact .later still wakes (rests.later (stuck ticket drive member).2 first) next

/-- As long as the gauge is above zero, it goes on. -/
theorem Ongoing.lively (ongoing : Ongoing jobs s q) (timed : ∀ job ∈ jobs, job.Timed)
    (shut : Sealed s q) (owned : s.abandoned = false) (staffed : 0 < s.workers.length)
    (patient : ∀ stage ∈ s.calls, stage.wakeAt? = none) (raised : s.monitor.incomplete ≠ 0) :
    s.Lively := by
  cases next : s.nextStep? with
  | some m => exact .now next
  | none =>
      obtain ⟨workers, calls⟩ := nextStep?_eq_none next
      cases ongoing.sound.busy shut owned staffed raised with
      | call found possible => exact .of_call (List.mem_of_getElem? found) possible
      | worker found possible =>
          have stuck := workers _ (List.mem_of_getElem? found)
          rw [possible] at stuck
          cases stuck
      | drive drives =>
          obtain ⟨drive, found⟩ := drives
          exact ongoing.restful.lively_of_drive timed patient next (List.mem_of_getElem? found)

theorem Lively.nextMove? (lively : s.Lively) : ∃ m, s.nextMove? none = some m ∧
    (s.canMove m = true ∧ m.isStep = true ∨ ∃ due, m = .elapse due ∧ s.now ≤ due ∧
      s.nextStep? = none ∧ (s.move m).nextStep? ≠ none) := by
  cases lively with
  | @now m next => exact ⟨m, by rw [Coordinator.nextMove?, next], .inl (of_nextStep? next)⟩
  | @later due m still wakes ahead next =>
      refine ⟨.elapse due, ?_, .inr ⟨due, rfl, Nat.le_of_lt ahead, still, by simp [next]⟩⟩
      rw [Coordinator.nextMove?, still, wakes]
      simp [ahead, letsTimePass]

end Coordinator

end KeyedJobs
