import KeyedJobs.Proofs.Coordinator.Discarding
import KeyedJobs.Proofs.Coordinator.Finishing
import KeyedJobs.Proofs.KeyQueue.Waiting

/-! # Letting go of a coordinator with jobs

When the owner lets go of a coordinator, the channel closes and the workers go on until they have
ended. A worker then cannot send on the next job of a key, so it drops that job, and since nobody
holds the key any more, the jobs behind the dropped one stay in the queue for good. How many jobs
each key leaves behind is fixed when the channel closes.
-/

namespace KeyedJobs

/-- How many jobs of the key the worker has been handed by a release and not sent on. -/
def Worker.resumes (key : String) : Worker → Nat
  | .resuming next _ => if next.job.key = key then 1 else 0
  | _ => 0

/-- Whether a panic took the worker down. -/
def Worker.isCrashed : Worker → Bool
  | .crashed _ => true
  | _ => false

theorem Worker.resumes_le_holds (worker : Worker) (key : String) :
    worker.resumes key ≤ worker.holds key := by
  cases worker with
  | resuming => exact Nat.le_refl _
  | _ => exact Nat.zero_le _

theorem tally_le_tally {α : Type} {light heavy : α → Nat} (le : ∀ x, light x ≤ heavy x)
    (list : List α) : tally light list ≤ tally heavy list := by
  induction list with
  | nil => exact Nat.le_refl _
  | cons x rest ih => exact Nat.add_le_add (le x) ih

open Monitor (Counter)

namespace Coordinator

variable {config : Config} {s t u : Coordinator} {q q' r r' : KeyQueue Ticket} {m : Move} {n : Nat}
  {key : String} {jobs : List Job}

def resumes (s : Coordinator) (key : String) : Nat := tally (Worker.resumes key) s.workers

/-- How much a key still has to get through: the jobs that wait, the one that is handed out, the one
before it if it is just being handed over, and two for a line that is active without anybody holding
it. -/
def load (s : Coordinator) (q : KeyQueue Ticket) (key : String) : Nat :=
  (q.waitingOn key).length + s.holders key + s.resumes key + 2 * (q.mark key - s.holders key)

theorem resumes_setWorker {i : Nat} {old : Worker} (found : s.workers[i]? = some old) (new : Worker)
    (key : String) :
    (s.setWorker i new).resumes key + old.resumes key = s.resumes key + new.resumes key :=
  tally_set (Worker.resumes key) found new

theorem load_setWorker (custody : Custody s q) {i : Nat} {old new : Worker}
    (found : s.workers[i]? = some old) (workers : t.workers = s.workers)
    (after : Custody (t.setWorker i new) q') (key : String)
    (balance : (q'.waitingOn key).length + new.resumes key + 2 * q'.mark key +
        (tally (Signal.holds key) s.channel.held + old.holds key) =
      (q.waitingOn key).length + old.resumes key + 2 * q.mark key +
        (tally (Signal.holds key) t.channel.held + new.holds key)) :
    (t.setWorker i new).load q' key = s.load q key := by
  have bound := custody.exclusive key
  have bound' := after.exclusive key
  have most := q.mark_le_one key
  have most' := q'.mark_le_one key
  have held := holders_setWorker (workers ▸ found) new key
  have resumed := resumes_setWorker (workers ▸ found) new key
  simp only [load, resumes, holders, workers] at *
  omega

theorem load_closeLine (custody : Custody s q) {i : Nat} {done : Driven}
    (found : s.workers[i]? = some (.releasing done))
    (released : q.release done.key = .ok (none, q')) :
    s.load q done.key = 1 ∧ (s.setWorker i (countingOf done)).load q' done.key = 0 := by
  obtain ⟨empty, elsewhere⟩ := KeyQueue.waitingOn_release_none released
  have bound := custody.exclusive done.key
  have most := q.mark_le_one done.key
  have held := holders_setWorker found (countingOf done) done.key
  have resumed := resumes_setWorker found (countingOf done) done.key
  have here : (Worker.releasing done).holds done.key = 1 := if_pos rfl
  -- The worker holds the key, so nobody else does, nor has been handed its next job.
  have light : s.resumes done.key + 1 ≤ s.holders done.key := by
    have erased := tally_eraseIdx (Worker.holds done.key) found
    have erased' := tally_eraseIdx (Worker.resumes done.key) found
    have le := tally_le_tally (fun worker => Worker.resumes_le_holds worker done.key)
      (s.workers.eraseIdx i)
    simp only [resumes, holders, Worker.resumes] at *
    omega
  have unmarked : q'.mark done.key = 0 := by
    rw [KeyQueue.mark_release_none released, if_pos rfl]
  have unresumed : (countingOf done).resumes done.key = 0 := rfl
  rw [holds_countingOf, here] at held
  simp only [load, elsewhere, empty, List.length_nil, unmarked] at *
  simp only [holders, resumes, Worker.resumes] at *
  omega

/-- Behind a closed channel a worker's step leaves the load of a key as it is, unless it releases
the key's last job. -/
theorem load_of_workerStep (custody : Custody s q) {i : Nat} {old new : Worker}
    (found : s.workers[i]? = some old) (step : WorkerStep s q old new t q')
    (closed : s.channel.closed = true) (key : String) :
    (t.setWorker i new).load q' key = s.load q key ∨
      s.load q key = 1 ∧ (t.setWorker i new).load q' key = 0 := by
  have steady := load_setWorker custody found (workers_of_workerStep step)
    (custody.of_workerStep found step) key
  cases step with
  | takeWake front | takeResume front =>
      refine .inl (steady ?_)
      simp only [front, tally_cons, Signal.holds, Worker.holds, Worker.resumes]
      omega
  | @activate active ticket _ taken =>
      refine .inl (steady ?_)
      have filed := custody.key_of_tryActivate taken
      have unmarked := KeyQueue.mark_of_tryActivate taken
      obtain ⟨here, elsewhere⟩ := KeyQueue.waitingOn_tryActivate taken
      simp only [Worker.holds, Worker.resumes, filed, KeyQueue.mark_tryActivate taken]
      by_cases same : key = active
      · subst same
        rw [here, List.length_cons]
        simp only [if_true]
        omega
      · rw [elsewhere key same]
        simp only [if_neg same, if_neg (Ne.symm same)]
  | @handOver done next _ released =>
      refine .inl (steady ?_)
      have filed := custody.key_of_release released
      obtain ⟨here, elsewhere⟩ := KeyQueue.waitingOn_release_some released
      simp only [Worker.holds, Worker.resumes, filed, KeyQueue.mark_release_some released]
      by_cases same : key = done.key
      · subst same
        rw [here, List.length_cons]
        simp only [if_true]
      · rw [elsewhere key same]
        simp only [if_neg (Ne.symm same)]
  | @closeLine done _ marked released =>
      by_cases same : key = done.key
      · subst same
        exact .inr (load_closeLine custody found released)
      · refine .inl (steady ?_)
        rw [(KeyQueue.waitingOn_release_none released).2, KeyQueue.mark_release_none released,
          if_neg same, holds_countingOf]
        simp only [Worker.holds, Worker.resumes, countingOf, if_neg (Ne.symm same)]
  | sendOn _ _ opened =>
      rw [opened] at closed
      cases closed
  | refuse next done =>
      refine .inl (steady ?_)
      simp only [Worker.holds, Worker.resumes, note]
      omega
  | drop next done =>
      refine .inl (steady ?_)
      have unresumed : (afterShedding next done).resumes key = 0 := by
        unfold afterShedding
        split <;> rfl
      rw [holds_afterShedding, unresumed]
      rfl
  | _ => exact .inl (steady rfl)

/-- What holds after the owner of `s` has let go of it. -/
structure Orphaned (s : Coordinator) (q : KeyQueue Ticket) (t : Coordinator) (r : KeyQueue Ticket) :
    Prop where
  custody : Custody t r
  quiet : t.calls = []
  owned : t.abandoned = true
  closed : t.channel.closed = true
  awake : ∀ key, r.Idles key → 0 < t.wakes key
  drained : .ended ∈ t.workers → t.channel.held = []
  intact : ∀ worker ∈ t.workers, worker.isCrashed = false
  calm : ∀ ticket ∈ t.tickets r, ticket.job.dropPanic = none
  load : ∀ key, t.load r key = s.load q key ∨ s.load q key ≤ 1 ∧ t.load r key = 0

theorem held_of_workerStep {old new : Worker} (step : WorkerStep s q old new t q')
    (closed : s.channel.closed = true) (empty : s.channel.held = []) : t.channel.held = [] := by
  cases step with
  | takeWake front | takeResume front =>
      rw [empty] at front
      cases front
  | sendOn _ _ opened =>
      rw [opened] at closed
      cases closed
  | _ => exact empty

theorem Orphaned.of_worker (orphaned : Orphaned s q t r) {i : Nat} {old new : Worker}
    (found : t.workers[i]? = some old) (step : WorkerStep t r old new u r') :
    Orphaned s q (u.setWorker i new) r' := by
  have workers := workers_of_workerStep step
  have calls := calls_of_workerStep step
  have closed := channel_of_workerStep step
  have member := List.mem_of_getElem? found
  refine ⟨orphaned.custody.of_workerStep found step, ?_, ?_, ?_, ?_, ?_, ?_, ?_, ?_⟩
  · rw [setWorker, calls, orphaned.quiet]
  · rw [setWorker, abandoned_of_workerStep step, orphaned.owned]
  · rw [setWorker, closed, orphaned.closed]
  · intro key idles
    obtain ⟨before, kept⟩ := wakes_of_workerStep step idles
    have positive := orphaned.awake key before
    have moved := wakes_setWorker (workers ▸ found) new key
    simp only [wakes, calls, workers] at positive moved ⊢
    omega
  · intro ended
    rw [setWorker, workers] at ended
    suffices before : t.channel.held = [] from
      (held_of_workerStep step orphaned.closed before : u.channel.held = [])
    rcases List.mem_or_eq_of_mem_set ended with before | now
    · exact orphaned.drained before
    · cases step with
      | leave _ empty => exact empty
      | drop next done =>
          unfold afterShedding at now
          split at now <;> cases now
      | _ => cases now
  · intro worker inSet
    rw [setWorker, workers] at inSet
    rcases List.mem_or_eq_of_mem_set inSet with before | rfl
    · exact orphaned.intact worker before
    · cases step with
      | drop next done =>
          have calm : next.job.dropPanic = none := orphaned.calm next (by
            simp only [tickets, List.mem_append, List.mem_flatMap]
            exact .inl (.inr ⟨_, member, List.mem_singleton.mpr rfl⟩))
          rw [afterShedding, calm]
          rfl
      | _ => rfl
  · intro ticket present
    exact orphaned.calm ticket (tickets_of_workerStep orphaned.custody found step ticket present)
  · intro key
    rcases load_of_workerStep orphaned.custody found step orphaned.closed key with same | ⟨one, zero⟩
    · rw [same]
      exact orphaned.load key
    · refine .inr ⟨?_, zero⟩
      rcases orphaned.load key with same | ⟨few, -⟩
      · omega
      · exact few

theorem Orphaned.of_transition (orphaned : Orphaned s q t r) (move : Transition t r m u r') :
    Orphaned s q u r' := by
  have custody := orphaned.custody.of_transition move
  cases move with
  | worker found step => exact orphaned.of_worker found step
  | call found => simp [orphaned.quiet] at found
  | enter request alive =>
      rw [orphaned.owned] at alive
      cases alive
  | exit found => simp [orphaned.quiet] at found
  | abandon _ alive =>
      rw [orphaned.owned] at alive
      cases alive
  | resolve | elapse =>
      exact ⟨custody, orphaned.quiet, orphaned.owned, orphaned.closed, orphaned.awake,
        orphaned.drained, orphaned.intact, orphaned.calm, orphaned.load⟩

theorem Orphaned.of_abandon (custody : Custody s q) (awake : Awake s q) (guarded : Guarded s q)
    (roster : Roster jobs s q) (calm : ∀ job ∈ jobs, job.dropPanic = none)
    (opened : s.channel.closed = false) (possible : s.canMove .abandon = true) :
    Orphaned s q (s.move .abandon) q where
  custody := custody.undisturbed rfl (fun _ => rfl) fun opened => by cases opened
  quiet := by
    simp only [canMove, Bool.and_eq_true, List.isEmpty_iff] at possible
    exact possible.1
  owned := rfl
  closed := rfl
  awake := awake opened
  drained ended := by cases guarded.working opened _ ended
  intact worker member := by
    have works := guarded.working opened worker member
    cases worker with
    | crashed => cases works
    | _ => rfl
  calm ticket present := by
    have numbered := roster.numbered ticket present
    exact calm ticket.job (List.mem_of_getElem? numbered)
  load _ := .inl rfl

theorem Orphaned.of_reaches (orphaned : Orphaned s q t r) (reaches : Reaches t u) :
    ∃ r', Orphaned s q u r' := by
  induction reaches with
  | refl => exact ⟨r, orphaned⟩
  | step m _ possible ih =>
      obtain ⟨r', orphaned⟩ := ih
      obtain ⟨_, move⟩ := orphaned.custody.transition possible
      exact ⟨_, orphaned.of_transition move⟩

theorem tally_of_ended {weight : Worker → Nat} (weightless : weight .ended = 0)
    (ended : ∀ worker ∈ t.workers, worker = .ended) : tally weight t.workers = 0 :=
  tally_eq_zero.mpr fun worker member => by rw [ended worker member, weightless]

theorem flatMap_of_ended {α : Type} {f : Worker → List α} (empty : f .ended = [])
    (ended : ∀ worker ∈ t.workers, worker = .ended) : t.workers.flatMap f = [] :=
  List.flatMap_eq_nil_iff.mpr fun worker member => by rw [ended worker member, empty]

theorem Orphaned.held (orphaned : Orphaned s q t r) (staffed : 0 < t.workers.length)
    (ended : ∀ worker ∈ t.workers, worker = .ended) : t.channel.held = [] := by
  have member : t.workers[0] ∈ t.workers := List.getElem_mem staffed
  exact orphaned.drained (ended _ member ▸ member)

/-- Once all workers have ended, what is left of the load of a key waits in its line. -/
theorem Orphaned.waiting (orphaned : Orphaned s q t r) (staffed : 0 < t.workers.length)
    (ended : ∀ worker ∈ t.workers, worker = .ended) (key : String) :
    (r.waitingOn key).length = s.load q key - 2 := by
  have held := orphaned.held staffed ended
  have holders : t.holders key = 0 := by
    rw [Coordinator.holders, tally_of_ended rfl ended, held]
    rfl
  have resumes : t.resumes key = 0 := tally_of_ended rfl ended
  have wakes : t.wakes key = 0 := by
    rw [Coordinator.wakes, tally_of_ended rfl ended, held, orphaned.quiet]
    rfl
  have load := orphaned.load key
  rw [Coordinator.load, holders, resumes] at load
  have most := r.mark_le_one key
  by_cases empty : r.waitingOn key = []
  · rw [empty, List.length_nil] at load ⊢
    omega
  · -- No wake is under way any more, so a line with waiting jobs is an active one.
    rcases KeyQueue.mark_or_idles empty with marked | idles
    · omega
    · have positive := orphaned.awake key idles
      omega

/-- What the workers leave behind when they have ended. -/
structure LeftBehind (jobs : List Job) (s : Coordinator) (q : KeyQueue Ticket) (t : Coordinator)
    (r : KeyQueue Ticket) : Prop where
  /-- An admitted job was driven to its end or dropped, and was counted once, or it still waits and
  nothing has happened to it. -/
  accounted : ∀ n ∈ t.admissions,
    (t.counts.count n = 1 ∧ n ∉ r.serials ∧ Course Anyhow t.policy jobs n (t.work n)) ∨
      (n ∉ t.counts ∧ n ∈ r.serials ∧ t.work n = [])
  /-- The counters show what has happened. -/
  counters : ∀ counter : Counter, counter.read t.monitor = tally counter.weight t.due
  gauge : t.monitor.incomplete = r.allWaiting.length
  /-- Two jobs of each key get through, one to be driven and one to be dropped. -/
  waiting : ∀ key, (r.waitingOn key).length = s.load q key - 2
  cleared : (∀ key, s.load q key ≤ 2) → r.allWaiting = [] ∧ t.monitor.incomplete = 0

theorem Orphaned.plays (orphaned : Orphaned s q t r) (plays : Plays Free config jobs t)
    (reaches : Reaches t u) : Plays Free config jobs u := by
  induction reaches with
  | refl => exact plays
  | step m reached possible ih =>
      obtain ⟨_, orphaned⟩ := orphaned.of_reaches reached
      have none_brought : m.jobs = [] := by
        cases m with
        | begin => simp [canMove, orphaned.owned] at possible
        | _ => rfl
      have stepped := ih.step m possible trivial
      rwa [none_brought, List.append_nil] at stepped

theorem Orphaned.ended_of_hasEnded (orphaned : Orphaned s q t r)
    (left : ∀ i < t.workers.length, t.hasEnded i = true) : ∀ worker ∈ t.workers, worker = .ended := by
  intro worker member
  obtain ⟨i, found⟩ := List.getElem?_of_mem member
  have intact := orphaned.intact worker member
  obtain ⟨inRange, -⟩ := List.getElem?_eq_some_iff.mp found
  have ended := left i inRange
  rw [hasEnded, found] at ended
  cases worker with
  | ended => rfl
  | crashed => cases intact
  | _ => cases ended

theorem Charted.accounted {fits : Drive → Instant → Completions → Prop}
    (charted : Charted fits jobs t r) (unended : t.unended = []) (closing : t.closing = [])
    (dropped : t.dropped = []) (admitted : n ∈ t.admissions) :
    (t.counts.count n = 1 ∧ n ∉ r.serials ∧ Course fits t.policy jobs n (t.work n)) ∨
      (n ∉ t.counts ∧ n ∈ r.serials ∧ t.work n = []) := by
  have present := List.count_pos_iff.mpr admitted
  have once := charted.placed.admitted_le_one n
  have located := charted.balanced n
  have counted := charted.balanced.counted charted.placed n
  rw [unended, List.count_nil] at located
  rw [closing, dropped, List.count_nil] at counted
  by_cases ended : n ∈ t.endings
  · have positive := List.count_pos_iff.mpr ended
    refine .inl ⟨by omega, ?_, (charted.standing n).ended ended⟩
    rw [← List.count_eq_zero]
    omega
  · have none_ended := List.count_eq_zero.mpr ended
    have waits : n ∈ r.serials := List.count_pos_iff.mp (by omega)
    refine .inr ⟨?_, waits, charted.unstarted_of_waiting waits⟩
    rw [← List.count_eq_zero]
    omega

theorem Orphaned.leftBehind (orphaned : Orphaned s q t r) (charted : Charted Anyhow jobs t r)
    (ledger : Ledger t) (booked : Booked t) (staffed : 0 < t.workers.length)
    (ended : ∀ worker ∈ t.workers, worker = .ended) : LeftBehind jobs s q t r := by
  have held := orphaned.held staffed ended
  have dropped : t.dropped = [] := by rw [Coordinator.dropped, orphaned.quiet]; rfl
  have unended : t.unended = [] := by
    rw [Coordinator.unended, bearings, held, flatMap_of_ended rfl ended]
    rfl
  have closing : t.closing = [] := flatMap_of_ended rfl ended
  have owed : t.owed = [] := by
    rw [Coordinator.owed, orphaned.quiet, flatMap_of_ended rfl ended]
    rfl
  have gauge : t.monitor.incomplete = r.allWaiting.length := by
    have taken : t.taken = [] := flatMap_of_ended rfl ended
    have shown := ledger.incomplete charted.placed
    rw [length_placed, taken, dropped, resumed, held, offered, orphaned.quiet] at shown
    simpa using shown
  have waiting := orphaned.waiting staffed ended
  refine ⟨fun n => charted.accounted unended closing dropped, ?_, gauge, waiting, ?_⟩
  · intro counter
    have shown := booked counter
    rwa [owed, tally_nil, Nat.add_zero] at shown
  · intro few
    have empty : r.allWaiting = [] := by
      rw [List.eq_nil_iff_forall_not_mem]
      rintro ⟨key, ticket⟩ waits
      have present := orphaned.custody.formed.mem_waitingOn.mpr waits
      have positive := List.length_pos_of_mem present
      have left := waiting key
      have light := few key
      omega
    exact ⟨empty, by rw [gauge, empty, List.length_nil]⟩

/-- When the owner lets go of a coordinator, then once all workers have ended every admitted job has
been driven to its end or dropped and has been counted once, but for those that are left behind a
dropped job of their key. -/
theorem leftBehind_of_plays (plays : Plays Free config jobs s)
    (calm : ∀ job ∈ jobs, job.dropPanic = none) (opened : s.channel.closed = false)
    (possible : s.canMove .abandon = true) (later : Reaches (s.move .abandon) t)
    (left : ∀ i < t.workers.length, t.hasEnded i = true) :
    ∃ q r, s.queue = .sound q ∧ t.queue = .sound r ∧ LeftBehind jobs s q t r := by
  obtain ⟨q, custody, sound, roster⟩ := plays.induct (P := fun jobs s q => Sound s q ∧ Roster jobs s q)
    ⟨.of_fresh config, .of_fresh config⟩ fun _ custody ⟨sound, roster⟩ _ move =>
      ⟨sound.of_transition move, roster.of_transition custody move⟩
  have start := Orphaned.of_abandon custody sound.awake sound.guarded roster calm opened possible
  have let_go : Plays Free config (jobs ++ []) (s.move .abandon) := plays.step .abandon possible trivial
  rw [List.append_nil] at let_go
  obtain ⟨r, custody', ⟨ledger, booked⟩, charted⟩ := (start.plays let_go later).induct
    (P := fun jobs s q => (Ledger s ∧ Booked s) ∧ Charted Anyhow jobs s q)
    ⟨⟨.of_fresh config, .of_fresh config⟩, .of_fresh config⟩
    fun _ custody ⟨⟨ledger, booked⟩, charted⟩ _ move =>
      ⟨⟨ledger.of_transition charted.placed move, booked.of_transition move⟩,
        charted.of_transition custody (fun _ _ _ => trivial) move⟩
  obtain ⟨r', orphaned⟩ := start.of_reaches later
  obtain rfl : r = r' := Lock.sound.inj (custody'.sound.symm.trans orphaned.custody.sound)
  have staffed := (start.plays let_go later).arises.staffed
  exact ⟨q, r, custody.sound, custody'.sound,
    orphaned.leftBehind charted ledger booked staffed (orphaned.ended_of_hasEnded left)⟩

/-- Enqueues the job as the only call. -/
def enqueueing (job : Job) : List Move :=
  [.begin (.enqueue job), .call 0, .call 0, .call 0, .call 0, .leave 0]

/-- One job is being driven and another one of its key waits when the owner lets go. -/
theorem leftBehind_of_two_jobs :
    let job := Job.new "A" fun _ => .writes []
    let moves := enqueueing job ++ enqueueing job ++ List.replicate 4 (.worker 0)
    let s := (fresh (.default .single)).follow moves
    let t := (s.move .abandon).follow (List.replicate 16 (.worker 0))
    ((Plays Free (.default .single) [job, job] s ∧ (∀ other ∈ [job, job], other.dropPanic = none)) ∧
        (s.channel.closed = false ∧ s.canMove .abandon = true) ∧ Reaches (s.move .abandon) t ∧
        ∀ i < t.workers.length, t.hasEnded i = true) ∧
      ∃ q r, s.queue = .sound q ∧ t.queue = .sound r ∧ LeftBehind [job, job] s q t r := by
  intro job moves s t
  have possible : (fresh (.default .single)).canFollow moves = true := by decide
  have plays : Plays Free (.default .single) [job, job] s := .free rfl possible
  have calm : ∀ other ∈ [job, job], other.dropPanic = none := by decide
  have opened : s.channel.closed = false := by decide
  have owned : s.canMove .abandon = true := by decide
  have later : Reaches (s.move .abandon) t := .follow (.refl _) (by decide)
  have left : ∀ i < t.workers.length, t.hasEnded i = true := by decide
  exact ⟨⟨⟨plays, calm⟩, ⟨opened, owned⟩, later, left⟩,
    leftBehind_of_plays plays calm opened owned later left⟩

/-- With two jobs waiting behind the one that is driven, the last one is left in the queue: it has
been admitted and is never counted, and the gauge stays above zero. -/
theorem uncounted_behind_dropped_job :
    let job := Job.new "A" fun _ => .writes []
    let moves := enqueueing job ++ enqueueing job ++ enqueueing job ++ List.replicate 4 (.worker 0)
    let s := (fresh (.default .single)).follow moves
    let t := (s.move .abandon).follow (List.replicate 18 (.worker 0))
    (Arises (.default .single) s ∧ job.dropPanic = none) ∧
      (s.channel.closed = false ∧ s.canMove .abandon = true) ∧ Reaches (s.move .abandon) t ∧
      (∀ i < t.workers.length, t.hasEnded i = true) ∧
      2 ∈ t.admissions ∧ 2 ∉ t.counts ∧ t.monitor.incomplete = 1 := by
  intro job moves s t
  have arises : Arises (.default .single) s := .follow rfl (by decide)
  have later : Reaches (s.move .abandon) t := .follow (.refl _) (by decide)
  exact ⟨⟨arises, rfl⟩, by decide, later, by decide, by decide, by decide, by decide⟩

end Coordinator

end KeyedJobs
