import KeyedJobs.Load.Run
import KeyedJobs.Proofs.Load.Rolls
import KeyedJobs.Proofs.Retry.Labor

/-! # How the jobs of a load end

The rolls decide how each job of a load ends, as long as its attempts are counted and there is room
for their completions: with its first attempt that has no failing write, or when its retries are
used up. Nobody has to send results to the jobs.
-/

namespace KeyedJobs.Load

/-- The rolls of a profile decide its jobs: the retries can be counted, some attempt succeeds if they
are not limited, and the numbers on the way to the rolls fit 64 bits. -/
structure Profile.Rollable (p : Profile) : Prop where
  countable : p.maxRetries ≤ maxAttempts
  hopeful : p.maxRetries < maxAttempts ∨ p.failurePercent < 100
  fits : p.jobs * 2654435761 + (p.maxRetries + 1) * 40503 < UInt64.size

/-- What is asked of a profile: its rolls decide its jobs, the completions of an attempt fit a
vector, and the clock has room for the time that a write takes. -/
structure Profile.Sensible (p : Profile) : Prop extends p.Rollable where
  roomy : p.width ≤ mostCompletions
  ends : p.writeLatency.ends = true

/-- The first number from one up to the bound that is chosen. -/
def firstUpTo (bound : Nat) (chosen : Nat → Bool) : Option Nat :=
  ((List.range bound).map (· + 1)).find? chosen

namespace Profile

/-- The first of the attempts that a job may make which has no failing write. -/
def lucky? (p : Profile) (seq : Nat) : Option Nat :=
  firstUpTo (p.maxRetries + 1) fun number => attemptFails seq number p.failurePercent = .ok false

/-- The attempt that is the last one of a job. -/
def last (p : Profile) (seq : Nat) : Nat :=
  (p.lucky? seq).getD (p.maxRetries + 1)

/-- How a job is resolved. -/
def resolution (p : Profile) (seq : Nat) : Resolution :=
  match p.lucky? seq with
  | some number => ⟨p.keyOf seq, .succeeded, number, false⟩
  | none => ⟨p.keyOf seq, .abandoned, p.maxRetries + 1, p.withCompensator⟩

/-- Each job of the load has its last attempt while attempts are still counted, and there is room
for the completions of its attempts. -/
structure Bounded (p : Profile) : Prop where
  counted : ∀ seq < p.jobs, p.last seq ≤ maxAttempts
  roomy : p.width ≤ mostCompletions

/-- The first jobs of a load. -/
def jobsUpTo (p : Profile) (count : Nat) : List Job :=
  (List.range count).map p.job

end Profile

variable {p : Profile} {plan : Plan} {seq number count percent : Nat}

theorem of_firstUpTo_eq_some {bound : Nat} {chosen : Nat → Bool}
    (found : firstUpTo bound chosen = some number) : 1 ≤ number ∧ number ≤ bound ∧
      chosen number = true ∧ ∀ earlier, 1 ≤ earlier → earlier < number → chosen earlier = false := by
  rw [firstUpTo, List.find?_map, Option.map_eq_some_iff] at found
  obtain ⟨before, found, rfl⟩ := found
  obtain ⟨picked, inRange, others⟩ := List.find?_range_eq_some.mp found
  refine ⟨Nat.le_add_left 1 before, Nat.succ_le_of_lt (List.mem_range.mp inRange), picked, ?_⟩
  intro earlier first less
  have skipped := others (earlier - 1) (by omega)
  simpa [Nat.sub_add_cancel first] using skipped

theorem of_firstUpTo_eq_none {bound : Nat} {chosen : Nat → Bool}
    (none_found : firstUpTo bound chosen = none) (first : 1 ≤ number) (inside : number ≤ bound) :
    chosen number = false := by
  have skipped := List.find?_eq_none.mp none_found number
    (List.mem_map.mpr ⟨number - 1, List.mem_range.mpr (by omega), Nat.sub_add_cancel first⟩)
  simpa using skipped

-- An equation of functions, as for the rolls: the kernel must not compute a roll that it cannot know.
theorem Profile.attempt_eq : Profile.attempt = fun p seq number =>
    match attemptFails seq number p.failurePercent with
    | .ok fails =>
        if p.width ≤ mostCompletions then .writes (p.writes (p.keyOf seq) fails)
        else .panics (.text "capacity overflow")
    | .error fault => .panics (.text fault.text) := rfl

theorem Profile.attempt_of_rolled {result : Except RollFault Bool} :
    attemptFails seq number p.failurePercent = result →
      p.attempt seq number = match result with
        | .ok fails =>
            if p.width ≤ mostCompletions then .writes (p.writes (p.keyOf seq) fails)
            else .panics (.text "capacity overflow")
        | .error fault => .panics (.text fault.text) := by
  rintro rfl
  exact congrFun (congrFun (congrFun attempt_eq p) seq) number

theorem Profile.attempt_of_ok {fails : Bool} (roomy : p.width ≤ mostCompletions)
    (rolled : attemptFails seq number p.failurePercent = .ok fails) :
    p.attempt seq number = .writes (p.writes (p.keyOf seq) fails) :=
  (attempt_of_rolled rolled).trans (if_pos roomy)

theorem Profile.attempt_of_crowded {fails : Bool} (crowded : ¬ p.width ≤ mostCompletions)
    (rolled : attemptFails seq number p.failurePercent = .ok fails) :
    p.attempt seq number = .panics (.text "capacity overflow") :=
  (attempt_of_rolled rolled).trans (if_neg crowded)

theorem Profile.attempt_of_error {fault : RollFault}
    (rolled : attemptFails seq number p.failurePercent = .error fault) :
    p.attempt seq number = .panics (.text fault.text) :=
  attempt_of_rolled rolled

namespace Profile

theorem length_jobsUpTo (p : Profile) (count : Nat) : (p.jobsUpTo count).length = count := by
  simp [jobsUpTo]

theorem jobsUpTo_succ (p : Profile) (count : Nat) :
    p.jobsUpTo (count + 1) = p.jobsUpTo count ++ [p.job count] := by
  simp [jobsUpTo, List.range_succ]

theorem getElem?_jobsUpTo (inside : seq < count) :
    (p.jobsUpTo count)[seq]? = some (p.job seq) := by
  simp [jobsUpTo, inside]

theorem of_getElem?_jobsUpTo {job : Job} (numbered : (p.jobsUpTo count)[seq]? = some job) :
    seq < count ∧ p.job seq = job := by
  have inside : seq < count := by
    simpa [length_jobsUpTo] using (List.getElem?_eq_some_iff.mp numbered).1
  rw [getElem?_jobsUpTo inside] at numbered
  exact ⟨inside, Option.some.inj numbered⟩

theorem keyOf_ne_empty (p : Profile) (seq : Nat) : p.keyOf seq ≠ "" := by
  intro empty
  have length := congrArg String.length empty
  simp [keyOf, String.length_append] at length

@[simp] theorem key_job (p : Profile) (seq : Nat) : (p.job seq).key = p.keyOf seq := by
  unfold job
  cases p.withCompensator <;> rfl

@[simp] theorem attemptCount_job (p : Profile) (seq : Nat) : (p.job seq).attemptCount = 0 := by
  unfold job
  cases p.withCompensator <;> rfl

@[simp] theorem maxRetries_job (p : Profile) (seq : Nat) :
    (p.job seq).maxRetries = p.maxRetries := by
  unfold job
  cases p.withCompensator <;> rfl

@[simp] theorem dropPanic_job (p : Profile) (seq : Nat) : (p.job seq).dropPanic = none := by
  unfold job
  cases p.withCompensator <;> rfl

@[simp] theorem action_job (p : Profile) (seq : Nat) : (p.job seq).action = p.attempt seq := by
  unfold job
  cases p.withCompensator <;> rfl

theorem compensator_job (p : Profile) (seq : Nat) : (p.job seq).compensator =
    if p.withCompensator then some (p.compensator (p.keyOf seq)) else none := by
  unfold job
  cases p.withCompensator <;> rfl

@[simp] theorem hasCompensator_job (p : Profile) (seq : Nat) :
    (p.job seq).hasCompensator = p.withCompensator := by
  rw [Job.hasCompensator, compensator_job]
  cases p.withCompensator <;> rfl

theorem attempt_cases (p : Profile) (seq number : Nat) :
    (∃ fails, p.attempt seq number = .writes (p.writes (p.keyOf seq) fails)) ∨
      ∃ panic, p.attempt seq number = .panics panic := by
  cases rolled : attemptFails seq number p.failurePercent with
  | ok fails =>
      by_cases roomy : p.width ≤ mostCompletions
      · exact .inl ⟨fails, attempt_of_ok roomy rolled⟩
      · exact .inr ⟨_, attempt_of_crowded roomy rolled⟩
  | error fault => exact .inr ⟨_, attempt_of_error rolled⟩

theorem length_started_attempt (p : Profile) (seq number : Nat) :
    (p.attempt seq number).started.length ≤ p.width := by
  rcases p.attempt_cases seq number with ⟨fails, writes⟩ | ⟨panic, panics⟩
  · rw [writes]
    simp [Call.started, Profile.writes, width]
  · rw [panics]
    exact Nat.zero_le _

theorem forall_started_attempt {P : Write → Prop} (each : ∀ key fails, P (p.write key fails))
    (seq number : Nat) : ∀ write ∈ (p.attempt seq number).started, P write := by
  rcases p.attempt_cases seq number with ⟨fails, writes⟩ | ⟨panic, panics⟩
  · rw [writes]
    intro write member
    rcases List.mem_cons.mp member with rfl | other
    · exact each _ _
    · rw [List.eq_of_mem_replicate other]
      exact each _ _
  · rw [panics]
    exact List.forall_mem_nil _

theorem respond_of_compensator_job {compensator : Compensator}
    (present : (p.job seq).compensator = some compensator) (failed : List CompletionId) :
    compensator.respond failed = .writes [p.write (p.keyOf seq) false] := by
  rw [compensator_job] at present
  split at present
  · obtain rfl := Option.some.inj present
    rfl
  · cases present

theorem paced_job (p : Profile) (seq : Nat) : (p.job seq).Paced p.width where
  action number := by
    rw [action_job]
    exact ⟨p.length_started_attempt seq number,
      forall_started_attempt (fun _ _ => rfl) seq number⟩
  compensator compensator present failed := by
    rw [respond_of_compensator_job present]
    exact ⟨Nat.le_add_left 1 _, List.forall_mem_singleton.mpr rfl⟩

theorem timed_job (ends : p.writeLatency.ends = true) (seq : Nat) : (p.job seq).Timed where
  action number := by
    rw [action_job]
    exact forall_started_attempt (fun _ _ => ends) seq number
  compensator compensator present failed := by
    rw [respond_of_compensator_job present]
    exact List.forall_mem_singleton.mpr ends

theorem promises_replicate (plan : Plan) (p : Profile) (key : String) (count : Nat) :
    (promises plan (List.replicate count (p.write key false))).filterMap Poll.failed? = [] := by
  induction count with
  | zero => rfl
  | succ count ih => exact ih

theorem failed_writes (plan : Plan) (p : Profile) (key : String) (fails : Bool) :
    (Call.writes (p.writes key fails)).failed plan = [] ↔ fails = false := by
  have others := promises_replicate plan p key (p.writesPerJob - 1)
  cases fails with
  | false =>
      refine iff_of_true ?_ rfl
      exact others
  | true => exact iff_of_false (fun none_failed => nomatch none_failed) (fun same => nomatch same)

theorem failed_attempt (roomy : p.width ≤ mostCompletions) (plan : Plan) (seq number : Nat) :
    ((p.job seq).action number).failed plan = [] ↔
      attemptFails seq number p.failurePercent = .ok false := by
  rw [action_job]
  cases rolled : attemptFails seq number p.failurePercent with
  | ok fails => rw [attempt_of_ok roomy rolled, failed_writes, Except.ok.injEq]
  | error fault =>
      rw [attempt_of_error rolled]
      exact iff_of_false (List.cons_ne_nil _ _) nofun

theorem of_lucky?_eq_some (lucky : p.lucky? seq = some number) :
    1 ≤ number ∧ number ≤ p.maxRetries + 1 ∧
      attemptFails seq number p.failurePercent = .ok false ∧
      ∀ earlier, 1 ≤ earlier → earlier < number →
        attemptFails seq earlier p.failurePercent ≠ .ok false := by
  obtain ⟨first, allowed, picked, others⟩ := of_firstUpTo_eq_some lucky
  exact ⟨first, allowed, of_decide_eq_true picked, fun earlier first less =>
    of_decide_eq_false (others earlier first less)⟩

theorem of_lucky?_eq_none (unlucky : p.lucky? seq = none) (first : 1 ≤ number)
    (allowed : number ≤ p.maxRetries + 1) : attemptFails seq number p.failurePercent ≠ .ok false :=
  of_decide_eq_false (of_firstUpTo_eq_none unlucky first allowed)

theorem exists_lucky? (below : p.failurePercent < 100) (allowed : p.failurePercent ≤ p.maxRetries)
    (fits : Fits seq (p.failurePercent + 1)) :
    ∃ number, p.lucky? seq = some number ∧ number ≤ p.failurePercent + 1 := by
  obtain ⟨n, few, succeeds⟩ := exists_lucky below (Nat.add_comm 1 _ ▸ fits)
  have first : 1 ≤ 1 + n := Nat.le_add_right 1 n
  have soon : 1 + n ≤ p.failurePercent + 1 := by omega
  cases lucky : p.lucky? seq with
  | none => exact absurd succeeds (of_lucky?_eq_none lucky first (by omega))
  | some earliest =>
      obtain ⟨-, -, -, others⟩ := of_lucky?_eq_some lucky
      refine ⟨earliest, rfl, Nat.le_trans (Nat.not_lt.mp fun later => ?_) soon⟩
      exact others (1 + n) first later succeeds

theorem last_le (p : Profile) (seq : Nat) : p.last seq ≤ p.maxRetries + 1 := by
  unfold last
  cases lucky : p.lucky? seq with
  | none => exact Nat.le_refl _
  | some number => exact (of_lucky?_eq_some lucky).2.1

theorem last_of_lucky? (lucky : p.lucky? seq = some number) : p.last seq = number := by
  rw [last, lucky, Option.getD_some]

theorem Sensible.bounded (sensible : p.Sensible) : p.Bounded := by
  refine ⟨fun seq inside => ?_, sensible.roomy⟩
  rcases Nat.lt_or_eq_of_le sensible.countable with limited | unlimited
  · exact Nat.le_trans (p.last_le seq) limited
  · have below : p.failurePercent < 100 :=
      sensible.hopeful.resolve_left (unlimited ▸ Nat.lt_irrefl maxAttempts)
    have allowed : p.failurePercent ≤ p.maxRetries := by
      rw [unlimited]
      exact Nat.le_trans (Nat.le_of_lt below) (by decide)
    have fits : Fits p.jobs (p.maxRetries + 1) := sensible.fits
    obtain ⟨number, lucky, soon⟩ := exists_lucky? below allowed
      (fits.mono (Nat.le_of_lt inside) (Nat.succ_le_succ allowed))
    rw [last_of_lucky? lucky]
    exact Nat.le_trans soon (Nat.le_trans below (by decide))

theorem Bounded.limited (bounded : p.Bounded) (inside : seq < p.jobs)
    (unlucky : p.lucky? seq = none) : p.maxRetries < maxAttempts := by
  have least := bounded.counted seq inside
  rwa [last, unlucky] at least

theorem Bounded.endsBy (bounded : p.Bounded) (inside : seq < p.jobs) :
    (p.job seq).EndsBy plan (p.last seq) := by
  unfold last
  cases lucky : p.lucky? seq with
  | some number =>
      obtain ⟨first, -, succeeds, -⟩ := of_lucky?_eq_some lucky
      exact ⟨first, .inl ((failed_attempt bounded.roomy plan seq number).mpr succeeds)⟩
  | none =>
      have limited := bounded.limited inside lucky
      refine ⟨Nat.succ_pos _, .inr ?_⟩
      rw [maxRetries_job]
      simp only [Option.getD_none]
      omega

theorem Bounded.ends (bounded : p.Bounded) (plan : Plan) (inside : seq < p.jobs) :
    ∃ made, (p.job seq).Ends plan (p.resolution seq) made := by
  have fresh := p.attemptCount_job seq
  unfold resolution
  cases lucky : p.lucky? seq with
  | some number =>
      obtain ⟨first, allowed, succeeds, others⟩ := of_lucky?_eq_some lucky
      obtain ⟨count, rfl⟩ := Nat.exists_eq_add_of_le' first
      have few : count + 1 ≤ maxAttempts := last_of_lucky? lucky ▸ bounded.counted seq inside
      have retries : (p.job seq).Retries plan count := by
        refine ⟨fun number first within success => ?_, ?_⟩
        · exact others number first (by omega)
            ((failed_attempt bounded.roomy plan seq number).mp success)
        · rw [maxRetries_job]
          omega
      have success : ((p.job seq).action (count + 1)).failed plan = [] :=
        (failed_attempt bounded.roomy plan seq _).mpr succeeds
      have ends := Job.ends_of_success fresh retries success
      rw [Nat.min_eq_left few, key_job] at ends
      exact ⟨_, ends⟩
  | none =>
      have limited : (p.job seq).maxRetries < maxAttempts := by
        rw [maxRetries_job]
        exact bounded.limited inside lucky
      have fails : ∀ number, 1 ≤ number → number ≤ (p.job seq).maxRetries + 1 →
          ((p.job seq).action number).failed plan ≠ [] := by
        intro number first allowed success
        rw [maxRetries_job] at allowed
        exact of_lucky?_eq_none lucky first allowed
          ((failed_attempt bounded.roomy plan seq number).mp success)
      have ends := Job.ends_of_exhaustion fresh limited fails
      simpa using ends

end Profile

end KeyedJobs.Load
