import KeyedJobs.Proofs.Coordinator.Transition

/-! # Custody over a run

Custody holds in every state that a coordinator comes to, whichever threads move and in whatever
order. A property of the start that every transition keeps holds in all these states as well.
-/

namespace KeyedJobs

/-- Whether the call is an enqueue that has not returned. -/
def Stage.enqueues : Stage → Bool
  | .checking _ | .pushing _ | .refusing _ | .admitting _ | .waking _ => true
  | _ => false

namespace Coordinator

/-- The state belongs to a run of a coordinator with the settings. -/
def Arises (config : Config) (s : Coordinator) : Prop :=
  ∃ origin, start config = .ok origin ∧ Reaches origin s

variable {config : Config} {s t : Coordinator} {q q' : KeyQueue Ticket} {m : Move}

theorem workers_of_workerStep {old new : Worker} (step : WorkerStep s q old new t q') :
    t.workers = s.workers := by
  cases step <;> rfl

theorem channel_of_workerStep {old new : Worker} (step : WorkerStep s q old new t q') :
    t.channel.closed = s.channel.closed := by
  cases step with
  | sendOn next done opened => exact opened.symm
  | _ => rfl

theorem calls_of_workerStep {old new : Worker} (step : WorkerStep s q old new t q') :
    t.calls = s.calls := by
  cases step <;> rfl

theorem calls_of_callStep {old new : Stage} (step : CallStep s q old new t q') :
    t.calls = s.calls := by
  cases step <;> rfl

theorem workers_of_callStep {old new : Stage} (step : CallStep s q old new t q') :
    t.workers = s.workers := by
  cases step <;> rfl

theorem store_of_workerStep {old new : Worker} (step : WorkerStep s q old new t q') :
    (t.completions = s.completions ∧
        ∀ ticket drive, new = .driving ticket drive → drive = Drive.begin ticket.job) ∨
      ∃ ticket drive, old = .driving ticket drive ∧ drive.resolution? = none ∧
        new = .driving ticket (drive.step s.policy s.now s.completions).drive ∧
        t.completions = (drive.step s.policy s.now s.completions).completions := by
  cases step with
  | @drive ticket drive _ log going step =>
      subst step
      exact .inr ⟨ticket, drive, rfl, going, rfl, rfl⟩
  | beginDrive ticket =>
      refine .inl ⟨rfl, fun other drive same => ?_⟩
      cases same
      rfl
  | drop next done =>
      refine .inl ⟨rfl, fun other drive same => ?_⟩
      unfold afterShedding at same
      split at same <;> cases same
  | _ => exact .inl ⟨rfl, fun other drive same => by cases same⟩

theorem completions_of_callStep {old new : Stage} (step : CallStep s q old new t q') :
    t.completions = s.completions := by
  cases step <;> rfl

theorem opened_of_callStep {old new : Stage} (step : CallStep s q old new t q')
    (opened : t.channel.closed = false) : s.channel.closed = false := by
  cases step with
  | wake _ opened' => exact opened'
  | hangUp => cases opened
  | _ => exact opened

theorem holders_setWorker {i : Nat} {old : Worker} (found : s.workers[i]? = some old)
    (new : Worker) (key : String) :
    (s.setWorker i new).holders key + old.holds key = s.holders key + new.holds key := by
  have placed := tally_set (Worker.holds key) found new
  simp only [holders, setWorker]
  omega

/-- Holders and marks that change together. Only behind a closed channel may a job be let go whose
line stays marked. -/
theorem Custody.balanced (custody : Custody s q) (sound : t.queue = .sound q')
    (formed : q'.WellFormed) (filed : ∀ entry ∈ q'.allWaiting, entry.2.job.key = entry.1)
    (fewer : ∀ key, t.holders key + q.mark key ≤ s.holders key + q'.mark key)
    (opened : t.channel.closed = false → s.channel.closed = false ∧
      ∀ key, s.holders key + q'.mark key ≤ t.holders key + q.mark key) : Custody t q' where
  sound := sound
  formed := formed
  filed := filed
  exclusive key := by
    have before := custody.exclusive key
    have change := fewer key
    omega
  marked now key := by
    obtain ⟨open_, change⟩ := opened now
    have before := custody.marked open_ key
    have changed := change key
    omega

theorem Custody.undisturbed (custody : Custody s q) (same : t.queue = s.queue)
    (holders : ∀ key, t.holders key = s.holders key)
    (opened : t.channel.closed = false → s.channel.closed = false) : Custody t q :=
  custody.balanced (same.trans custody.sound) custody.formed custody.filed
    (fun key => Nat.le_of_eq (by rw [holders key]))
    fun now => ⟨opened now, fun key => Nat.le_of_eq (by rw [holders key])⟩

theorem Custody.key_of_tryActivate (custody : Custody s q) {key : String} {ticket : Ticket}
    (taken : q.tryActivate key = (some ticket, q')) : ticket.job.key = key :=
  custody.filed (key, ticket) ((KeyQueue.allWaiting_tryActivate taken).mem_iff.mpr List.mem_cons_self)

theorem Custody.key_of_release (custody : Custody s q) {key : String} {next : Ticket}
    (released : q.release key = .ok (some next, q')) : next.job.key = key :=
  custody.filed (key, next)
    ((KeyQueue.allWaiting_release_some released).mem_iff.mpr List.mem_cons_self)

theorem holds_countingOf (done : Driven) (key : String) : (countingOf done).holds key = 0 := rfl

theorem holds_afterShedding (next : Ticket) (done : Driven) (key : String) :
    (afterShedding next done).holds key = 0 := by
  unfold afterShedding
  split <;> rfl

/-- What a worker's step adds to the holders of a key it adds to the mark of the key's line. Only a
job that is refused by a closed channel stops being held without its line being released. -/
theorem Custody.balance (custody : Custody s q) {old new : Worker}
    (step : WorkerStep s q old new t q') (key : String) :
    tally (Signal.holds key) t.channel.held + new.holds key + q.mark key ≤
        tally (Signal.holds key) s.channel.held + old.holds key + q'.mark key ∧
      (s.channel.closed = false →
        tally (Signal.holds key) s.channel.held + old.holds key + q'.mark key ≤
          tally (Signal.holds key) t.channel.held + new.holds key + q.mark key) := by
  cases step with
  | takeWake front =>
      simp only [front, tally_cons, Signal.holds, Worker.holds]
      omega
  | takeResume front =>
      simp only [front, tally_cons, Signal.holds, Worker.holds]
      omega
  | @activate active ticket _ taken =>
      have filed := custody.key_of_tryActivate taken
      have unmarked := KeyQueue.mark_of_tryActivate taken
      simp only [Worker.holds, filed, KeyQueue.mark_tryActivate taken]
      by_cases same : key = active
      · subst same
        simp only [if_true]
        omega
      · simp only [if_neg same, if_neg (Ne.symm same)]
        omega
  | handOver released =>
      have filed := custody.key_of_release released
      simp only [Worker.holds, filed, KeyQueue.mark_release_some released]
      omega
  | @closeLine done _ marked released =>
      have bound := KeyQueue.mark_le_one q done.key
      rw [holds_countingOf, KeyQueue.mark_release_none released]
      simp only [Worker.holds]
      by_cases same : key = done.key
      · subst same
        simp only [if_true]
        omega
      · simp only [if_neg same, if_neg (Ne.symm same)]
        omega
  | sendOn next done opened =>
      rw [holds_countingOf]
      simp only [tally_append, tally_cons, tally_nil, Signal.holds, Worker.holds]
      omega
  | refuse next done log closed =>
      simp only [Worker.holds, closed, note]
      refine ⟨by omega, ?_⟩
      intro opened
      cases opened
  | drop next done =>
      rw [holds_afterShedding]
      simp only [Worker.holds]
      omega
  | leave | ignoreWake | beginDrive | drive | endDrive | shed | count | finish =>
      simp only [Worker.holds, note, countResolved, adjust]
      omega

theorem Custody.formed_of_workerStep (custody : Custody s q) {old new : Worker}
    (step : WorkerStep s q old new t q') :
    t.queue = .sound q' ∧ q'.WellFormed ∧ ∀ entry ∈ q'.allWaiting, entry ∈ q.allWaiting := by
  cases step with
  | activate taken =>
      refine ⟨rfl, custody.formed.tryActivate taken, ?_⟩
      intro entry member
      exact (KeyQueue.allWaiting_tryActivate taken).mem_iff.mpr (List.mem_cons_of_mem _ member)
  | handOver released =>
      refine ⟨rfl, custody.formed.release released, ?_⟩
      intro entry member
      exact (KeyQueue.allWaiting_release_some released).mem_iff.mpr (List.mem_cons_of_mem _ member)
  | closeLine _ released =>
      refine ⟨rfl, custody.formed.release released, ?_⟩
      intro entry member
      rwa [custody.formed.allWaiting_release_none released] at member
  | _ => exact ⟨custody.sound, custody.formed, fun _ => id⟩

theorem Custody.of_workerStep (custody : Custody s q) {i : Nat} {old new : Worker}
    (found : s.workers[i]? = some old) (step : WorkerStep s q old new t q') :
    Custody (t.setWorker i new) q' := by
  obtain ⟨sound, formed, kept⟩ := custody.formed_of_workerStep step
  have same := workers_of_workerStep step
  have placed := holders_setWorker (same ▸ found) new
  have filed : ∀ entry ∈ q'.allWaiting, entry.2.job.key = entry.1 := fun entry member =>
    custody.filed entry (kept entry member)
  refine custody.balanced sound formed filed ?_ ?_
  · intro key
    have balance := (custody.balance step key).1
    have moved := placed key
    simp only [holders, same] at moved ⊢
    omega
  · intro opened
    have opened' : s.channel.closed = false := channel_of_workerStep step ▸ opened
    refine ⟨opened', ?_⟩
    intro key
    have balance := (custody.balance step key).2 opened'
    have moved := placed key
    simp only [holders, same] at moved ⊢
    omega

theorem Custody.of_callStep (custody : Custody s q) {i : Nat} {old new : Stage}
    (step : CallStep s q old new t q') : Custody (t.setCall i new) q' := by
  cases step with
  | push pushed =>
      have marks : ∀ key, q'.mark key = q.mark key := fun _ => KeyQueue.mark_push pushed
      refine custody.balanced rfl (custody.formed.push pushed) ?_ ?_ ?_
      · intro entry member
        rcases List.mem_cons.mp ((KeyQueue.allWaiting_push pushed).mem_iff.mp member) with rfl | old
        · rfl
        · exact custody.filed entry old
      · intro key
        exact Nat.le_of_eq (by rw [marks key]; rfl)
      · intro opened
        exact ⟨opened, fun key => Nat.le_of_eq (by rw [marks key]; rfl)⟩
  | closeQueue finishing log =>
      have formed : q.close.WellFormed := ⟨custody.formed.distinct, custody.formed.inhabited⟩
      exact custody.balanced rfl formed custody.filed (fun _ => Nat.le_refl _)
        fun opened => ⟨opened, fun _ => Nat.le_refl _⟩
  | discard finishing log =>
      have marks := custody.formed.mark_discardWaiting
      refine custody.balanced rfl custody.formed.discardWaiting ?_ ?_ ?_
      · intro entry member
        rw [KeyQueue.allWaiting_discardWaiting] at member
        cases member
      · intro key
        exact Nat.le_of_eq (by rw [marks key]; rfl)
      · intro opened
        exact ⟨opened, fun key => Nat.le_of_eq (by rw [marks key]; rfl)⟩
  | wake key opened =>
      refine custody.undisturbed rfl ?_ fun _ => opened
      intro key
      simp only [holders, setCall, tally_append, tally_cons, tally_nil, Signal.holds, Nat.add_zero]
  | hangUp => exact custody.undisturbed rfl (fun _ => rfl) fun opened => by cases opened
  | _ => exact custody.undisturbed rfl (fun _ => rfl) id

theorem Custody.of_transition (custody : Custody s q) (move : Transition s q m t q') :
    Custody t q' := by
  cases move with
  | worker found step => exact custody.of_workerStep found step
  | call found step => exact custody.of_callStep step
  | abandon => exact custody.undisturbed rfl (fun _ => rfl) fun opened => by cases opened
  | enter | exit | resolve | elapse => exact custody.undisturbed rfl (fun _ => rfl) id

theorem start_eq_ok (started : start config = .ok s) : s = fresh config := by
  unfold start at started
  cases valid : config.validate with
  | error fault => simp [valid, Except.map] at started
  | ok =>
      rw [valid] at started
      exact (Except.ok.inj started).symm

theorem tally_workers_fresh (config : Config) {weight : Worker → Nat}
    (weightless : weight .receiving = 0) : tally weight (fresh config).workers = 0 := by
  rw [tally_eq_zero]
  intro worker member
  rw [List.eq_of_mem_replicate member, weightless]

theorem Custody.of_fresh (config : Config) : Custody (fresh config) .empty where
  sound := rfl
  formed := ⟨List.nodup_nil, fun _ member => by cases member⟩
  filed _ member := by cases member
  exclusive key := by
    rw [holders, tally_workers_fresh config rfl]
    exact Nat.zero_le _
  marked _ key := Nat.zero_le _

/-- Every state of a run is in custody, and a property that the start has and that each transition
keeps is a property of every state of the run. -/
theorem Arises.induct {P : Coordinator → KeyQueue Ticket → Prop} (arises : Arises config s)
    (starts : P (fresh config) .empty)
    (keeps : ∀ {s q m t q'},
      Arises config s → Custody s q → P s q → Transition s q m t q' → P t q') :
    ∃ q, Custody s q ∧ P s q := by
  obtain ⟨origin, started, reaches⟩ := arises
  obtain rfl := start_eq_ok started
  induction reaches with
  | refl => exact ⟨_, .of_fresh config, starts⟩
  | step m reached possible ih =>
      obtain ⟨q, custody, holds⟩ := ih
      obtain ⟨q', move⟩ := custody.transition possible
      exact ⟨q', custody.of_transition move, keeps ⟨_, started, reached⟩ custody holds move⟩

theorem Arises.custody (arises : Arises config s) : ∃ q, Custody s q := by
  obtain ⟨q, custody, -⟩ := arises.induct (P := fun _ _ => True) trivial
    fun _ _ _ _ => trivial
  exact ⟨q, custody⟩

theorem Arises.reaches (arises : Arises config s) (reaches : Reaches s t) : Arises config t := by
  induction reaches with
  | refl => exact arises
  | step m _ possible ih =>
      obtain ⟨origin, started, reached⟩ := ih
      exact ⟨origin, started, reached.step m possible⟩

theorem Arises.workers (arises : Arises config s) : s.workers.length = config.workers.toNat := by
  obtain ⟨q, -, counted⟩ := arises.induct
    (P := fun s _ => s.workers.length = config.workers.toNat)
    List.length_replicate
    fun _ _ counted move => by
      cases move with
      | worker found step =>
          rw [setWorker, List.length_set, workers_of_workerStep step, counted]
      | call found step => rw [setCall, workers_of_callStep step, counted]
      | enter | exit | resolve | elapse | abandon => exact counted
  exact counted

/-- Whether the moves are possible one after the other. -/
def canFollow : Coordinator → List Move → Bool
  | _, [] => true
  | s, m :: rest => s.canMove m && canFollow (s.move m) rest

/-- The state after the moves. -/
def follow (s : Coordinator) (moves : List Move) : Coordinator :=
  moves.foldl move s

theorem Reaches.follow (reached : Reaches s t) {moves : List Move}
    (possible : t.canFollow moves = true) : Reaches s (t.follow moves) := by
  induction moves generalizing t with
  | nil => exact reached
  | cons m rest ih =>
      simp only [canFollow, Bool.and_eq_true] at possible
      exact ih (reached.step m possible.1) possible.2

theorem Arises.follow (valid : config.validate = .ok ()) {moves : List Move}
    (possible : (fresh config).canFollow moves = true) :
    Arises config ((fresh config).follow moves) :=
  ⟨fresh config, by rw [start, valid]; rfl, Reaches.follow (.refl _) possible⟩

end Coordinator

end KeyedJobs
