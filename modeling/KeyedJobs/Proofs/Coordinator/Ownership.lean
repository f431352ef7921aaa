import KeyedJobs.Proofs.Coordinator.Enrolment
import KeyedJobs.Proofs.Retry.Sharing

/-! # Drives side by side

Jobs that share no completions do not get into each other's way. Whichever workers drive them and
however their steps alternate, every drive finds the completions that it knows as it left them, but
for the results that were sent to them.
-/

namespace KeyedJobs

open Completions (Change SameAt)

/-- The jobs have completions of their own and no name in common. -/
structure Apart (jobs : List Job) : Prop where
  own : ∀ job ∈ jobs, job.Private
  secret : jobs.Pairwise fun job other => ∀ gate, job.Uses gate → ¬ other.Uses gate

/-- The completions that the worker's drive knows. -/
def Worker.mentions : Worker → List CompletionId
  | .driving _ drive => drive.mentions
  | _ => []

/-- The worker's drive, if it runs one, owns its completions. -/
def Worker.Owns (plan : Plan) (cs : Completions) : Worker → Prop
  | .driving ticket drive => Drive.Owns plan ticket.job drive cs
  | _ => True

section Apart

variable {jobs more : List Job} {job other : Job} {n n' : Nat}

theorem Apart.of_append (apart : Apart (jobs ++ more)) : Apart jobs where
  own job member := apart.own job (List.mem_append_left _ member)
  secret := (List.pairwise_append.mp apart.secret).1

theorem Apart.secret_of_ne (apart : Apart jobs) (numbered : jobs[n]? = some job)
    (numbered' : jobs[n']? = some other) (ne : n ≠ n') (gate : String) (used : job.Uses gate) :
    ¬ other.Uses gate := by
  obtain ⟨inRange, rfl⟩ := List.getElem?_eq_some_iff.mp numbered
  obtain ⟨inRange', rfl⟩ := List.getElem?_eq_some_iff.mp numbered'
  have pairs := List.pairwise_iff_getElem.mp apart.secret
  rcases Nat.lt_or_gt_of_ne ne with before | after
  · exact pairs n n' inRange inRange' before gate used
  · exact fun used' => pairs n' n inRange' inRange after gate used' used

end Apart

namespace Coordinator

variable {config : Config} {s t : Coordinator} {q q' : KeyQueue Ticket} {m : Move}
  {jobs : List Job} {plan : Plan} {fits : Drive → Instant → Completions → Prop}

/-- Whether the move sends no result but the one that is planned. -/
def Move.isPlanned (plan : Plan) : Move → Bool
  | .resolve gate result => result = plan gate
  | _ => true

/-- The drives that are run own their completions, and no two of them know the same one. -/
structure Owned (plan : Plan) (s : Coordinator) : Prop where
  tidy : s.completions.Tidy
  owns : ∀ worker ∈ s.workers, worker.Owns plan s.completions
  apart : s.workers.Pairwise fun worker other => worker.mentions.Disjoint other.mentions

theorem mem_bearings_of_driving {ticket : Ticket} {drive : Drive}
    (member : .driving ticket drive ∈ s.workers) : .underway ticket drive ∈ s.bearings :=
  List.mem_append_left _ (List.mem_flatMap.mpr ⟨_, member, List.mem_singleton.mpr rfl⟩)

theorem driving_of_mem_bearings {ticket : Ticket} {drive : Drive}
    (present : .underway ticket drive ∈ s.bearings) : .driving ticket drive ∈ s.workers := by
  rcases List.mem_append.mp present with atWorker | inChannel
  · obtain ⟨worker, member, bears⟩ := List.mem_flatMap.mp atWorker
    cases worker with
    | driving =>
        cases List.mem_singleton.mp bears
        exact member
    | holding | resuming | releasing => cases List.mem_singleton.mp bears
    | _ => cases bears
  · obtain ⟨signal, -, bears⟩ := List.mem_flatMap.mp inChannel
    cases signal with
    | wake => cases bears
    | resume => cases List.mem_singleton.mp bears

theorem Owned.fitting (owned : Owned plan s) (ticket : Ticket) (drive : Drive)
    (present : .underway ticket drive ∈ s.bearings) :
    drive.Heeds plan s.now s.completions :=
  ⟨owned.tidy, (owned.owns _ (driving_of_mem_bearings present)).fits⟩

theorem Charted.serial_ne (charted : Charted fits jobs s q) {i : Nat} {ticket ticket' : Ticket}
    {drive drive' : Drive} (found : s.workers[i]? = some (.driving ticket drive))
    (other : .driving ticket' drive' ∈ s.workers.eraseIdx i) : ticket.serial ≠ ticket'.serial := by
  have before : s.bearings.Perm (.underway ticket drive :: s.besides i) := bearings_of_worker found
  obtain ⟨-, -, apart⟩ := charted.balanced.apart charted.placed before (List.mem_singleton.mpr rfl)
  intro same
  refine apart (List.mem_flatMap.mpr ⟨.underway ticket' drive', ?_, List.mem_singleton.mpr same⟩)
  exact List.mem_append_left _ (List.mem_flatMap.mpr ⟨_, other, List.mem_singleton.mpr rfl⟩)

theorem workers_setWorker {i : Nat} {old : Worker} (found : s.workers[i]? = some old)
    (workers : t.workers = s.workers) (new : Worker) :
    (t.setWorker i new).workers.Perm (new :: s.workers.eraseIdx i) := by
  rw [setWorker, workers]
  exact perm_set found new

theorem Owned.separate (owned : Owned plan s) {i : Nat} {old : Worker}
    (found : s.workers[i]? = some old) :
    (∀ worker ∈ s.workers.eraseIdx i, old.mentions.Disjoint worker.mentions) ∧
      (s.workers.eraseIdx i).Pairwise fun worker other => worker.mentions.Disjoint other.mentions :=
  List.pairwise_cons.mp (((perm_eraseIdx found).pairwise_iff fun disjoint =>
    List.disjoint_symm disjoint).mp owned.apart)

theorem Owned.setWorker (owned : Owned plan s) {i : Nat} {old new : Worker}
    (found : s.workers[i]? = some old) (workers : t.workers = s.workers) (tidy : t.completions.Tidy)
    (owns : new.Owns plan t.completions)
    (others : ∀ worker ∈ s.workers.eraseIdx i, worker.Owns plan t.completions)
    (separate : ∀ worker ∈ s.workers.eraseIdx i, new.mentions.Disjoint worker.mentions) :
    Owned plan (t.setWorker i new) := by
  have after := workers_setWorker found workers new
  refine ⟨tidy, ?_, ?_⟩
  · intro worker member
    rcases List.mem_cons.mp (after.mem_iff.mp member) with rfl | other
    · exact owns
    · exact others worker other
  · rw [after.pairwise_iff fun disjoint => List.disjoint_symm disjoint]
    exact List.pairwise_cons.mpr ⟨separate, (owned.separate found).2⟩

theorem Owned.sameAt (owned : Owned plan s) (charted : Charted fits jobs s q) (apart : Apart jobs)
    {i : Nat} {ticket : Ticket} {drive : Drive} {cs : Completions}
    (found : s.workers[i]? = some (.driving ticket drive))
    (change : Change (· ∈ drive.mentions) ticket.job.Uses s.completions cs) :
    ∀ worker ∈ s.workers.eraseIdx i, ∀ id ∈ worker.mentions, SameAt s.completions cs id := by
  intro worker other
  cases worker with
  | driving ticket' drive' =>
      have present := List.mem_of_getElem? found
      have present' := List.mem_of_mem_eraseIdx other
      have numbered := charted.roster.numbered_bearing (mem_bearings_of_driving present)
        (List.mem_singleton.mpr rfl)
      have numbered' := charted.roster.numbered_bearing (mem_bearings_of_driving present')
        (List.mem_singleton.mpr rfl)
      have secret := apart.secret_of_ne numbered' numbered (Ne.symm (charted.serial_ne found other))
      exact (owned.owns _ present').sameAt change
        (fun id known touched => (owned.separate found).1 _ other touched known) secret
  | _ =>
      intro id known
      cases known

theorem Owned.of_drive (owned : Owned plan s) (charted : Charted fits jobs s q)
    (apart : Apart jobs) (untimed : s.policy.completionTimeout = none) {i : Nat} {ticket : Ticket}
    {drive : Drive} (found : s.workers[i]? = some (.driving ticket drive))
    (going : drive.resolution? = none) (workers : t.workers = s.workers)
    (stored : t.completions = (drive.step s.policy s.now s.completions).completions) :
    Owned plan
      (t.setWorker i (.driving ticket (drive.step s.policy s.now s.completions).drive)) := by
  have kept : ∀ worker ∈ s.workers.eraseIdx i, worker ∈ s.workers := fun _ =>
    List.mem_of_mem_eraseIdx
  have present := List.mem_of_getElem? found
  have driven := mem_bearings_of_driving present
  have numbered := charted.roster.numbered_bearing driven (List.mem_singleton.mpr rfl)
  have own := apart.own ticket.job (List.mem_of_getElem? numbered)
  obtain ⟨made, traced, -⟩ := (charted.standing ticket.serial).started ticket drive driven rfl
  have owns := owned.owns _ present
  have step : DriveStep s.policy s.now s.completions drive _ _ _ := Drive.step_driveStep going
  obtain ⟨change, mentions⟩ := Drive.effect_of_driveStep own traced.ofJob owned.tidy step
  rw [← stored] at change mentions step
  have separate := (owned.separate found).1
  refine owned.setWorker found workers change.tidy
    (owns.of_driveStep own traced.ofJob untimed owned.tidy step) ?_ ?_
  · intro worker other
    cases worker with
    | driving ticket' drive' =>
        exact (owned.owns _ (kept _ other)).same (owned.sameAt charted apart found change _ other)
          change.grows
    | _ => trivial
  · -- What the drive knows it has known before, or it is new and no other drive can know it.
    intro worker other id known known'
    rcases mentions id known with earlier | ⟨new, -⟩
    · exact separate worker other earlier known'
    · cases worker with
      | driving ticket' drive' =>
          have inside := (owned.owns _ (kept _ other)).inside id known'
          exact absurd inside (Nat.not_lt.mpr new)
      | _ => cases known'

theorem Owned.of_worker (owned : Owned plan s) (charted : Charted fits jobs s q)
    (apart : Apart jobs) (untimed : s.policy.completionTimeout = none) {i : Nat} {old new : Worker}
    (found : s.workers[i]? = some old) (step : WorkerStep s q old new t q') :
    Owned plan (t.setWorker i new) := by
  have workers := workers_of_workerStep step
  rcases store_of_workerStep step with ⟨store, begins⟩ | ⟨ticket, drive, rfl, going, rfl, stored⟩
  · have known : new.Owns plan t.completions ∧ new.mentions = [] := by
      cases new with
      | driving ticket drive =>
          obtain rfl := begins ticket drive rfl
          exact ⟨.begin ticket.job t.completions, rfl⟩
      | _ => exact ⟨trivial, rfl⟩
    refine owned.setWorker found workers (store ▸ owned.tidy) known.1 ?_ ?_
    · intro worker other
      exact store ▸ owned.owns worker (List.mem_of_mem_eraseIdx other)
    · intro worker _
      rw [known.2]
      exact List.disjoint_nil_left _
  · exact owned.of_drive charted apart untimed found going workers stored

theorem Owned.of_transition (owned : Owned plan s) (charted : Charted fits jobs s q)
    (apart : Apart jobs) (untimed : s.policy.completionTimeout = none)
    (planned : m.isPlanned plan = true) (move : Transition s q m t q') : Owned plan t := by
  cases move with
  | worker found step => exact owned.of_worker charted apart untimed found step
  | @call i old new t q' _ step =>
      have store : (t.setCall i new).completions = s.completions := (completions_of_callStep step : _)
      have workers : (t.setCall i new).workers = s.workers := (workers_of_callStep step : _)
      exact ⟨store ▸ owned.tidy, by rw [store, workers]; exact owned.owns, workers ▸ owned.apart⟩
  | resolve gate result =>
      obtain rfl := of_decide_eq_true planned
      refine ⟨Completions.tidy_resolve owned.tidy gate _, ?_, owned.apart⟩
      intro worker member
      cases worker with
      | driving ticket drive => exact (owned.owns _ member).resolve owned.tidy gate
      | _ => trivial
  | enter | exit | elapse | abandon => exact ⟨owned.tidy, owned.owns, owned.apart⟩

theorem Owned.of_fresh (plan : Plan) (config : Config) : Owned plan (fresh config) := by
  refine ⟨.empty, ?_, ?_⟩
  · intro worker member
    rw [List.eq_of_mem_replicate member]
    trivial
  · apply List.pairwise_of_forall_mem_list
    intro worker member other _
    rw [List.eq_of_mem_replicate member]
    exact List.disjoint_nil_left _

end Coordinator

end KeyedJobs
