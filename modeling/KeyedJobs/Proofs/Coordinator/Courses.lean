import KeyedJobs.Proofs.Coordinator.Endings
import KeyedJobs.Proofs.Coordinator.Plays
import KeyedJobs.Proofs.Retry.Trace

/-! # The work on one job

Everything that happens to one job between its admission and its count: nothing as long as it has
not been started, then the calls of one drive, and in the end the end of that drive, or nothing but
that it was dropped. Once a job has ended nothing more happens to it.
-/

namespace KeyedJobs

/-- The job that is worked on, or dropped. -/
def Event.worksOn : Event → Option Nat
  | .called serial _ _ | .driven serial _ _ | .discarded serial _ => some serial
  | .admitted _ _ | .counted _ => none

/-- The work on a job that has ended: a drive up to its end, or that the job was dropped. -/
inductive Course (fits : Drive → Instant → Completions → Prop) (policy : RetryPolicy)
    (jobs : List Job) (n : Nat) : List Event → Prop where
  | driven {job : Job} {drive : Drive} {made : List JobCall} {returned : Resolution} (worker : Nat)
      (numbered : jobs[n]? = some job) (traced : Traced fits policy job drive made)
      (ended : drive.resolution? = some returned) :
      Course fits policy jobs n (made.map (.called n job.key) ++
        [.driven n job.key (Coordinator.afterDrive worker drive.job returned).1])
  | dropped {job : Job} (numbered : jobs[n]? = some job) :
      Course fits policy jobs n [.discarded n job.key]

theorem Course.append {fits : Drive → Instant → Completions → Prop} {policy : RetryPolicy}
    {jobs : List Job} {n : Nat} {events : List Event} (course : Course fits policy jobs n events)
    (more : List Job) : Course fits policy (jobs ++ more) n events := by
  cases course with
  | driven worker numbered traced ended =>
      exact .driven worker (numbered_append numbered more) traced ended
  | dropped numbered => exact .dropped (numbered_append numbered more)

/-- The job, unless the worker is done with it. -/
def Bearing.tickets : Bearing → List Ticket
  | .fresh ticket | .underway ticket _ => [ticket]
  | .settled _ => []

namespace Coordinator

variable {config : Config} {s t : Coordinator} {q q' : KeyQueue Ticket} {m : Move}
  {jobs : List Job} {rule : Coordinator → Move → Prop}
  {fits : Drive → Instant → Completions → Prop} {n : Nat}

/-- What happened to the job, but for its admission and its count. -/
def work (s : Coordinator) (n : Nat) : List Event :=
  s.history.toList.filter (·.worksOn = some n)

theorem work_append {events : List Event} (noted : t.history.toList = s.history.toList ++ events)
    (n : Nat) : t.work n = s.work n ++ events.filter (·.worksOn = some n) := by
  rw [work, noted, List.filter_append]
  rfl

/-- How far the job is, and the work on it that goes with it. -/
structure Standing (fits : Drive → Instant → Completions → Prop) (jobs : List Job)
    (s : Coordinator) (n : Nat) : Prop where
  unstarted : n ∉ s.endings → n ∉ s.underway → s.work n = []
  started : ∀ ticket drive, .underway ticket drive ∈ s.bearings → ticket.serial = n →
    ∃ made, Traced fits s.policy ticket.job drive made ∧
      s.work n = made.map (.called n ticket.job.key)
  ended : n ∈ s.endings → Course fits s.policy jobs n (s.work n)

theorem policy_of_transition (move : Transition s q m t q') : t.policy = s.policy := by
  cases move with
  | worker _ step => cases step <;> rfl
  | call _ step => cases step <;> rfl
  | _ => rfl

theorem mem_underway : n ∈ s.underway ↔
    ∃ ticket drive, .underway ticket drive ∈ s.bearings ∧ ticket.serial = n := by
  simp only [underway, List.mem_flatMap]
  constructor
  · rintro ⟨bearing, present, drives⟩
    cases bearing with
    | underway ticket drive => exact ⟨ticket, drive, present, (List.mem_singleton.mp drives).symm⟩
    | _ => cases drives
  · rintro ⟨ticket, drive, present, rfl⟩
    exact ⟨_, present, List.mem_singleton.mpr rfl⟩

theorem Standing.kept (standing : Standing fits jobs s n) (policy : t.policy = s.policy)
    (work : t.work n = s.work n) (endings : n ∈ t.endings ↔ n ∈ s.endings)
    (bearings : ∀ ticket drive, ticket.serial = n →
      (.underway ticket drive ∈ t.bearings ↔ .underway ticket drive ∈ s.bearings))
    (more : List Job) : Standing fits (jobs ++ more) t n := by
  constructor
  · intro unended idle
    rw [work]
    refine standing.unstarted (fun ended => unended (endings.mpr ended)) fun driven => ?_
    obtain ⟨ticket, drive, present, same⟩ := mem_underway.mp driven
    exact idle (mem_underway.mpr ⟨ticket, drive, (bearings ticket drive same).mpr present, same⟩)
  · intro ticket drive present same
    rw [policy, work]
    exact standing.started ticket drive ((bearings ticket drive same).mp present) same
  · intro ended
    rw [policy, work]
    exact (standing.ended (endings.mp ended)).append more

theorem Balanced.alone (balanced : Balanced s q) (placed : Placed s q) (n : Nat) :
    s.endings.count n + q.serials.count n + s.unended.count n ≤ 1 := by
  have located := balanced n
  have once := placed.admitted_le_one n
  omega

theorem driven_subset_unended (bearings : List Bearing) :
    bearings.flatMap Bearing.driven ⊆ bearings.flatMap Bearing.unended := by
  intro n member
  obtain ⟨bearing, present, drives⟩ := List.mem_flatMap.mp member
  refine List.mem_flatMap.mpr ⟨bearing, present, ?_⟩
  cases bearing with
  | underway => exact drives
  | _ => cases drives

theorem Balanced.apart (balanced : Balanced s q) (placed : Placed s q) {bearing : Bearing}
    {kept : List Bearing} (before : s.bearings.Perm (bearing :: kept)) (out : n ∈ bearing.unended) :
    n ∉ s.endings ∧ n ∉ q.serials ∧ n ∉ kept.flatMap Bearing.unended := by
  have alone := balanced.alone placed n
  have located := (before.flatMap_right Bearing.unended).count_eq n
  have present := List.count_pos_iff.mpr out
  rw [List.flatMap_cons, List.count_append] at located
  unfold unended at alone
  refine ⟨?_, ?_, ?_⟩ <;> rw [← List.count_eq_zero] <;> omega

theorem Balanced.idle_of_fresh (balanced : Balanced s q) (placed : Placed s q) {ticket : Ticket}
    (present : .fresh ticket ∈ s.bearings) :
    ticket.serial ∉ s.endings ∧ ticket.serial ∉ s.underway := by
  obtain ⟨left, right, split⟩ := List.append_of_mem present
  have before : s.bearings.Perm (.fresh ticket :: (left ++ right)) := split ▸ List.perm_middle
  obtain ⟨unended, -, apart⟩ := balanced.apart placed before (List.mem_singleton.mpr rfl)
  refine ⟨unended, ?_⟩
  rw [underway, (before.flatMap_right Bearing.driven).mem_iff]
  exact fun driven => apart (driven_subset_unended _ driven)

theorem Balanced.idle_of_waiting (balanced : Balanced s q) (placed : Placed s q)
    (waits : n ∈ q.serials) : n ∉ s.endings ∧ n ∉ s.underway := by
  have alone := balanced.alone placed n
  have present := List.count_pos_iff.mpr waits
  have apart : n ∉ s.unended := List.count_eq_zero.mp (by omega)
  exact ⟨List.count_eq_zero.mp (by omega), fun driven => apart (driven_subset_unended _ driven)⟩

theorem Roster.numbered_bearing (roster : Roster jobs s q) {bearing : Bearing} {ticket : Ticket}
    (present : bearing ∈ s.bearings) (holds : ticket ∈ bearing.tickets) :
    jobs[ticket.serial]? = some ticket.job := by
  refine roster.numbered ticket ?_
  rcases List.mem_append.mp present with atWorker | inChannel
  · obtain ⟨worker, member, bears⟩ := List.mem_flatMap.mp atWorker
    have kept : ticket ∈ worker.tickets := by
      cases worker with
      | holding | driving | resuming | releasing =>
          obtain rfl := List.mem_singleton.mp bears
          exact holds
      | _ => cases bears
    exact List.mem_append_left _ (List.mem_append_right _ (List.mem_flatMap.mpr ⟨_, member, kept⟩))
  · obtain ⟨signal, member, bears⟩ := List.mem_flatMap.mp inChannel
    have kept : ticket ∈ signal.tickets := by
      cases signal with
      | wake => cases bears
      | resume =>
          obtain rfl := List.mem_singleton.mp bears
          exact holds
    exact List.mem_append_right _ (List.mem_flatMap.mpr ⟨_, member, kept⟩)

theorem Standing.of_ended (ended : n ∈ t.endings)
    (course : Course fits t.policy jobs n (t.work n)) (idle : n ∉ t.underway) :
    Standing fits jobs t n where
  unstarted unended := absurd ended unended
  started _ _ present same := absurd (mem_underway.mpr ⟨_, _, present, same⟩) idle
  ended _ := course

theorem Standing.of_underway {ticket : Ticket} {drive : Drive} {made : List JobCall}
    {kept : List Bearing} {policy : RetryPolicy} (same : t.policy = policy)
    (after : t.bearings.Perm (.underway ticket drive :: kept))
    (traced : Traced fits policy ticket.job drive made)
    (work : t.work ticket.serial = made.map (.called ticket.serial ticket.job.key))
    (unended : ticket.serial ∉ t.endings) (apart : ticket.serial ∉ kept.flatMap Bearing.unended) :
    Standing fits jobs t ticket.serial := by
  refine ⟨?_, ?_, fun ended => absurd ended unended⟩
  · intro _ idle
    exact absurd (mem_underway.mpr ⟨_, _, after.mem_iff.mpr List.mem_cons_self, rfl⟩) idle
  · intro other drive' present equal
    rcases List.mem_cons.mp (after.mem_iff.mp present) with here | elsewhere
    · cases here
      exact ⟨made, same ▸ traced, work⟩
    · exact absurd (List.mem_flatMap.mpr ⟨_, elsewhere, List.mem_singleton.mpr equal.symm⟩) apart

theorem works_discarded_of_absent {entries : List (String × Ticket)}
    (absent : n ∉ entries.map (·.2.serial)) :
    (entries.map fun (key, ticket) => Event.discarded ticket.serial key).filter
      (·.worksOn = some n) = [] := by
  rw [List.filter_eq_nil_iff]
  intro event member
  obtain ⟨entry, present, rfl⟩ := List.mem_map.mp member
  simp only [Event.worksOn, decide_eq_true_eq, Option.some.injEq]
  intro same
  exact absent (List.mem_map.mpr ⟨entry, present, same⟩)

theorem works_discarded {entry : String × Ticket} (present : entry ∈ q.allWaiting)
    (once : q.serials.count entry.2.serial ≤ 1) :
    (q.allWaiting.map fun (key, ticket) => Event.discarded ticket.serial key).filter
      (·.worksOn = some entry.2.serial) = [.discarded entry.2.serial entry.1] := by
  obtain ⟨before, after, split⟩ := List.append_of_mem present
  simp only [KeyQueue.serials, split, List.map_append, List.map_cons, List.count_append,
    List.count_cons_self] at once
  have absent : entry.2.serial ∉ before.map (·.2.serial) := List.count_eq_zero.mp (by omega)
  have absent' : entry.2.serial ∉ after.map (·.2.serial) := List.count_eq_zero.mp (by omega)
  rw [split, List.map_append, List.map_cons, List.filter_append, List.filter_cons,
    works_discarded_of_absent absent, works_discarded_of_absent absent']
  simp [Event.worksOn]

section Shifts

variable {gone come : List Bearing} {events : List Event} {ticket : Ticket} {drive : Drive}

theorem Standing.untouched (standing : Standing fits jobs s n) (exchange : Exchange s t gone come)
    (policy : t.policy = s.policy) (noted : t.history.toList = s.history.toList ++ events)
    (silent : events.filter (·.worksOn = some n) = []) (endless : n ∉ events.flatMap Event.ends)
    (idle : ∀ bearing ∈ gone ++ come, n ∉ bearing.driven) (more : List Job) :
    Standing fits (jobs ++ more) t n := by
  obtain ⟨kept, before, after⟩ := exchange
  refine standing.kept policy (by rw [work_append noted, silent, List.append_nil]) ?_ ?_ more
  · rw [endings_append noted, List.mem_append]
    exact or_iff_left endless
  · intro ticket drive same
    have elsewhere : .underway ticket drive ∉ gone ++ come := fun member =>
      idle _ member (List.mem_singleton.mpr same.symm)
    rw [List.mem_append, not_or] at elsewhere
    simp only [before.mem_iff, after.mem_iff, List.mem_append, elsewhere, false_or]

theorem Standing.of_begin (standing : Standing fits jobs s ticket.serial) (balanced : Balanced s q)
    (placed : Placed s q)
    (exchange : Exchange s t [.fresh ticket] [.underway ticket (Drive.begin ticket.job)])
    (policy : t.policy = s.policy) (noted : t.history.toList = s.history.toList ++ [])
    (more : List Job) : Standing fits (jobs ++ more) t ticket.serial := by
  obtain ⟨kept, before, after⟩ := exchange
  obtain ⟨-, -, apart⟩ := balanced.apart placed before List.mem_cons_self
  obtain ⟨unended, idle⟩ := balanced.idle_of_fresh placed (before.mem_iff.mpr List.mem_cons_self)
  have worked : t.work ticket.serial = [] := by
    rw [work_append noted, standing.unstarted unended idle]
    rfl
  have still : ticket.serial ∉ t.endings := by
    rwa [endings_append noted, List.flatMap_nil, List.append_nil]
  exact .of_underway policy after .begin worked still apart

theorem works_called (serial : Nat) (key : String) (made : List JobCall) :
    (made.map (Event.called serial key)).filter (·.worksOn = some n) =
      if serial = n then made.map (.called serial key) else [] := by
  split
  all_goals
    simp only [List.filter_eq_self, List.filter_eq_nil_iff, List.forall_mem_map]
    intro call _
    simpa [Event.worksOn]

theorem Standing.of_drive (standing : Standing fits jobs s ticket.serial) (balanced : Balanced s q)
    (placed : Placed s q) (going : drive.resolution? = none)
    (fitting : fits drive s.now s.completions)
    (exchange : Exchange s t [.underway ticket drive]
      [.underway ticket (drive.step s.policy s.now s.completions).drive])
    (policy : t.policy = s.policy)
    (noted : t.history.toList = s.history.toList ++
      (drive.step s.policy s.now s.completions).made.map (.called ticket.serial ticket.job.key))
    (more : List Job) : Standing fits (jobs ++ more) t ticket.serial := by
  obtain ⟨kept, before, after⟩ := exchange
  obtain ⟨unended, -, apart⟩ := balanced.apart placed before List.mem_cons_self
  obtain ⟨made, traced, worked⟩ :=
    standing.started ticket drive (before.mem_iff.mpr List.mem_cons_self) rfl
  refine .of_underway policy after (traced.step s.now s.completions going fitting) ?_ ?_ apart
  · rw [work_append noted, worked, works_called, if_pos rfl, List.map_append]
  · rwa [endings_append noted, ends_called, List.append_nil]

theorem Standing.of_finish {returned resolution : Resolution} {worker : Nat}
    {ending : Except Panic Resolution} {lines : List LogLine}
    (standing : Standing fits jobs s ticket.serial) (balanced : Balanced s q) (placed : Placed s q)
    (roster : Roster jobs s q) (ended : drive.resolution? = some returned)
    (outcome : afterDrive worker drive.job returned = (ending, resolution, lines))
    (exchange : Exchange s t [.underway ticket drive]
      [.settled ⟨ticket.serial, ticket.job.key, resolution⟩])
    (policy : t.policy = s.policy)
    (noted : t.history.toList =
      s.history.toList ++ [.driven ticket.serial ticket.job.key ending])
    (more : List Job) : Standing fits (jobs ++ more) t ticket.serial := by
  obtain ⟨kept, before, after⟩ := exchange
  have present := before.mem_iff.mpr List.mem_cons_self
  obtain ⟨-, -, apart⟩ := balanced.apart placed before List.mem_cons_self
  obtain ⟨made, traced, worked⟩ := standing.started ticket drive present rfl
  have numbered := roster.numbered_bearing present (List.mem_singleton.mpr rfl)
  refine .of_ended (by simp [endings_append noted, Event.ends]) ?_ ?_
  · have course := Course.driven worker numbered traced ended
    rw [outcome] at course
    rw [policy, work_append noted, worked]
    simpa [Event.worksOn] using course.append more
  · rw [underway, (after.flatMap_right Bearing.driven).mem_iff]
    exact fun driven => apart (driven_subset_unended kept driven)

theorem Standing.of_refuse (standing : Standing fits jobs s ticket.serial) (balanced : Balanced s q)
    (placed : Placed s q) (roster : Roster jobs s q) (exchange : Exchange s t [.fresh ticket] [])
    (policy : t.policy = s.policy)
    (noted : t.history.toList = s.history.toList ++ [.discarded ticket.serial ticket.job.key])
    (more : List Job) : Standing fits (jobs ++ more) t ticket.serial := by
  obtain ⟨kept, before, after⟩ := exchange
  have present := before.mem_iff.mpr List.mem_cons_self
  obtain ⟨-, -, apart⟩ := balanced.apart placed before List.mem_cons_self
  have numbered := roster.numbered_bearing present (List.mem_singleton.mpr rfl)
  obtain ⟨unended, idle⟩ := balanced.idle_of_fresh placed present
  refine .of_ended (by simp [endings_append noted, Event.ends]) ?_ ?_
  · rw [policy, work_append noted, standing.unstarted unended idle]
    simpa [Event.worksOn] using (Course.dropped numbered).append more
  · rw [underway, (after.flatMap_right Bearing.driven).mem_iff]
    exact fun driven => apart (driven_subset_unended kept driven)

theorem Standing.of_discard (standing : Standing fits jobs s n) (custody : Custody s q)
    (balanced : Balanced s q) (placed : Placed s q) (roster : Roster jobs s q) (waits : n ∈ q.serials)
    (exchange : Exchange s t [] []) (policy : t.policy = s.policy)
    (noted : t.history.toList = s.history.toList ++
      q.allWaiting.map fun (key, ticket) => .discarded ticket.serial key)
    (more : List Job) : Standing fits (jobs ++ more) t n := by
  obtain ⟨kept, before, after⟩ := exchange
  have alone := balanced.alone placed n
  have counted := List.count_pos_iff.mpr waits
  obtain ⟨unended, idle⟩ := balanced.idle_of_waiting placed waits
  obtain ⟨entry, present, rfl⟩ := List.mem_map.mp waits
  have worked := works_discarded present (by omega)
  have numbered : jobs[entry.2.serial]? = some entry.2.job :=
    roster.numbered entry.2 (List.mem_append_left _ (List.mem_append_left _
      (List.mem_append_right _ (List.mem_map_of_mem present))))
  refine .of_ended ?_ ?_ ?_
  · rw [endings_append noted, ends_discarded]
    exact List.mem_append_right _ waits
  · rw [policy, work_append noted, standing.unstarted unended idle, worked,
      ← custody.filed entry present]
    exact (Course.dropped numbered).append more
  · rw [underway, (after.flatMap_right Bearing.driven).mem_iff]
    rwa [underway, (before.flatMap_right Bearing.driven).mem_iff] at idle

/-- What a shift does to one job. Either nothing happens to it that is work on it, or it begins,
makes a step, ends or is dropped. -/
theorem Standing.of_shift (custody : Custody s q) (balanced : Balanced s q) (placed : Placed s q)
    (roster : Roster jobs s q) (standing : Standing fits jobs s n)
    (shift : Shift s q gone come events q') (exchange : Exchange s t gone come)
    (policy : t.policy = s.policy) (noted : t.history.toList = s.history.toList ++ events)
    (fitting : ∀ ticket drive, .underway ticket drive ∈ s.bearings →
      fits drive s.now s.completions) (more : List Job) :
    Standing fits (jobs ++ more) t n := by
  have untouched := fun silent endless idle =>
    standing.untouched exchange policy noted silent endless idle more
  cases shift with
  | rest silent same =>
      refine untouched ?_ ?_ (by simp)
      · rw [List.filter_eq_nil_iff]
        intro event member
        have quiet := silent event member
        cases event with
        | counted => simp [Event.worksOn]
        | _ => cases quiet
      · rw [(silent_of_key? silent).2]
        exact List.not_mem_nil
  | push => exact untouched (by simp [Event.worksOn]) (by simp [Event.ends]) (by simp)
  | handOut | handOver | closeLine => exact untouched rfl List.not_mem_nil (by simp [Bearing.driven])
  | begin ticket =>
      by_cases same : n = ticket.serial
      · subst same
        exact standing.of_begin balanced placed exchange policy noted more
      · exact untouched rfl List.not_mem_nil (by simp [Bearing.driven, same])
  | @drive ticket drive going =>
      by_cases same : n = ticket.serial
      · subst same
        obtain ⟨kept, before, -⟩ := id exchange
        have present := before.mem_iff.mpr List.mem_cons_self
        exact standing.of_drive balanced placed going (fitting ticket drive present) exchange policy
          noted more
      · refine untouched ?_ (by simp [ends_called]) (by simp [Bearing.driven, same])
        rw [works_called, if_neg (Ne.symm same)]
  | finish ticket ended outcome =>
      by_cases same : n = ticket.serial
      · subst same
        exact standing.of_finish balanced placed roster ended outcome exchange policy noted more
      · exact untouched (by simpa [Event.worksOn] using Ne.symm same)
          (by simpa [Event.ends] using same) (by simp [Bearing.driven, same])
  | refuse next =>
      by_cases same : n = next.serial
      · subst same
        exact standing.of_refuse balanced placed roster exchange policy noted more
      · exact untouched (by simpa [Event.worksOn] using Ne.symm same)
          (by simpa [Event.ends] using same) (by simp [Bearing.driven])
  | discard =>
      by_cases waits : n ∈ q.serials
      · exact standing.of_discard custody balanced placed roster waits exchange policy noted more
      · refine untouched (works_discarded_of_absent waits) ?_ (by simp)
        rwa [ends_discarded]

end Shifts

/-- Every job stands where the work on it says. -/
structure Charted (fits : Drive → Instant → Completions → Prop) (jobs : List Job)
    (s : Coordinator) (q : KeyQueue Ticket) : Prop where
  placed : Placed s q
  balanced : Balanced s q
  roster : Roster jobs s q
  standing : ∀ n, Standing fits jobs s n

theorem Charted.of_transition (charted : Charted fits jobs s q) (custody : Custody s q)
    (fitting : ∀ ticket drive, .underway ticket drive ∈ s.bearings →
      fits drive s.now s.completions) (move : Transition s q m t q') :
    Charted fits (jobs ++ m.jobs) t q' where
  placed := charted.placed.of_transition custody move
  balanced := charted.balanced.of_transition custody move
  roster := charted.roster.of_transition custody move
  standing n := by
    obtain ⟨gone, come, events, shift, exchange, noted⟩ := move.shift
    exact (charted.standing n).of_shift custody charted.balanced charted.placed charted.roster shift
      exchange (policy_of_transition move) noted fitting m.jobs

theorem Charted.of_fresh (config : Config) : Charted fits [] (fresh config) .empty where
  placed := .of_fresh config
  balanced := .of_fresh config
  roster := .of_fresh config
  standing n := by
    have idle : n ∉ (fresh config).underway := by
      intro driven
      have unended := driven_subset_unended _ driven
      have located := Balanced.of_fresh config n
      have present : 0 < (fresh config).unended.count n := List.count_pos_iff.mpr unended
      have none_admitted : (fresh config).admissions.count n = 0 := rfl
      omega
    refine ⟨fun _ _ => rfl, ?_, fun ended => by cases ended⟩
    intro ticket drive present same
    exact absurd (mem_underway.mpr ⟨ticket, drive, present, same⟩) idle

/-- A drive may find any completions at any time. -/
def Anyhow (_ : Drive) (_ : Instant) (_ : Completions) : Prop := True

theorem Plays.charted (plays : Plays rule config jobs s) :
    ∃ q, Custody s q ∧ Charted Anyhow jobs s q :=
  plays.induct (.of_fresh config) fun _ custody charted _ move =>
    charted.of_transition custody (fun _ _ _ => trivial) move

end Coordinator

end KeyedJobs
