import KeyedJobs.Proofs.Coordinator.Courses
import KeyedJobs.Proofs.Coordinator.Shutdown
import KeyedJobs.Proofs.KeyQueue.Waiting

/-! # The jobs of a key, one after the other

The jobs of a key are driven in the order in which they were admitted, each to its end before the
next one begins. So the calls into the jobs of a key are the calls of the first job, then those of
the second, and so on, whatever the threads do in between and whichever workers drive the jobs.
-/

namespace KeyedJobs

/-- The call into a job. -/
def Event.call? : Event → Option JobCall
  | .called _ _ call => some call
  | _ => none

/-- The call into a job of the key, with the job's number. -/
def Event.callOn? (key : String) : Event → Option (Nat × JobCall)
  | .called serial other call => if other = key then some (serial, call) else none
  | _ => none

/-- The job, if it is admitted under the key. -/
def Event.admitsOn? (key : String) : Event → Option Nat
  | .admitted serial other => if other = key then some serial else none
  | _ => none

namespace Coordinator

variable {config : Config} {s t : Coordinator} {q q' : KeyQueue Ticket} {m : Move}
  {jobs : List Job} {rule : Coordinator → Move → Prop}
  {fits : Drive → Instant → Completions → Prop} {n : Nat} {key : String}

/-- The calls into the job so far. -/
def callsOf (s : Coordinator) (n : Nat) : List JobCall := (s.work n).filterMap Event.call?

/-- The calls into the jobs of the key so far. -/
def callsOn (s : Coordinator) (key : String) : List (Nat × JobCall) :=
  s.history.toList.filterMap (Event.callOn? key)

/-- The jobs that were admitted under the key, in order. -/
def admissionsOn (s : Coordinator) (key : String) : List Nat :=
  s.history.toList.filterMap (Event.admitsOn? key)

/-- The drive of the job has returned or panicked. -/
def Returned (s : Coordinator) (key : String) (n : Nat) : Prop :=
  ∃ ending, .driven n key ending ∈ s.history.toList

/-- The jobs of a key in the order of their admission: those that were driven and released, one that
a closed channel refused, the one that is handed out, those that wait, and those that a shutdown
dropped. -/
structure Ordered (jobs : List Job) (s : Coordinator) (q : KeyQueue Ticket) (key : String)
    (driven refused dropped : List Nat) : Prop where
  order : s.admissionsOn key = driven ++ refused ++ (s.bearingsOn key).map Bearing.serial ++
    (q.waitingOn key).map (·.serial) ++ dropped
  calls : s.callsOn key = (driven ++ (s.bearingsOn key).map Bearing.serial).flatMap
    fun n => (s.callsOf n).map (n, ·)
  returned : ∀ n ∈ driven, s.Returned key n
  settled : ∀ done, .settled done ∈ s.bearingsOn key → s.Returned key done.serial
  stuck : refused ≠ [] → q.mark key = 1 ∧ s.bearingsOn key = []
  discarded : ∀ n ∈ refused ++ dropped, .discarded n key ∈ s.history.toList
  shut : dropped ≠ [] → q.closed = true ∧ s.shutdownPolicy = .discard
  filed : ∀ n ∈ s.admissionsOn key, ∃ job, jobs[n]? = some job ∧ job.key = key

/-- A call that is about to take the waiting jobs out of the queue does so by the policy, and has
closed the queue. -/
def Discarding (s : Coordinator) (q : KeyQueue Ticket) : Prop :=
  ∀ finishing, .discarding finishing ∈ s.calls → q.closed = true ∧ s.shutdownPolicy = .discard

theorem shutdownPolicy_of_transition (move : Transition s q m t q') :
    t.shutdownPolicy = s.shutdownPolicy := by
  cases move with
  | worker _ step => cases step <;> rfl
  | call _ step => cases step <;> rfl
  | _ => rfl

theorem discarding_of_callStep {old new : Stage} (step : CallStep s q old new t q')
    {finishing : Bool} (discards : new = .discarding finishing) :
    q'.closed = true ∧ s.shutdownPolicy = .discard := by
  cases step with
  | closeQueue other =>
      refine ⟨rfl, ?_⟩
      cases policy : s.shutdownPolicy with
      | discard => rfl
      | drain => cases other <;> simp [policy, afterClosing, afterShutdown] at discards
  | passMark other => cases other <;> cases discards
  | allDropped onward => cases onward using onward_cases <;> cases discards
  | _ => cases discards

theorem discarding_firstStage (s : Coordinator) (request : Request) (finishing : Bool) :
    s.firstStage request ≠ .discarding finishing :=
  s.firstStage_cases request (motive := fun stage => stage ≠ .discarding finishing) (by simp)
    (by simp) (by simp) (by simp)

theorem Discarding.of_transition (discarding : Discarding s q) (move : Transition s q m t q') :
    Discarding t q' := by
  intro finishing member
  have closes : q.closed = true → q'.closed = true := fun closed =>
    queue_closed_of_transition closed move
  rw [shutdownPolicy_of_transition move]
  have before : .discarding finishing ∈ s.calls → q'.closed = true ∧ s.shutdownPolicy = .discard :=
    fun waited => (discarding finishing waited).imp_left closes
  cases move with
  | worker _ step =>
      simp only [setWorker, calls_of_workerStep step] at member
      exact before member
  | call _ step =>
      simp only [setCall, calls_of_callStep step] at member
      rcases List.mem_or_eq_of_mem_set member with waited | now
      · exact before waited
      · exact discarding_of_callStep step now.symm
  | enter request =>
      rcases List.mem_append.mp member with waited | now
      · exact before waited
      · exact absurd (List.mem_singleton.mp now).symm (discarding_firstStage s request finishing)
  | exit => exact before (List.mem_of_mem_eraseIdx member)
  | resolve | elapse | abandon => exact before member

theorem Returned.of_noted {events : List Event}
    (noted : t.history.toList = s.history.toList ++ events) (returned : s.Returned key n) :
    t.Returned key n := by
  obtain ⟨ending, recorded⟩ := returned
  exact ⟨ending, noted ▸ List.mem_append_left _ recorded⟩

/-- A move with what it does to the jobs. -/
structure Passage (s : Coordinator) (q : KeyQueue Ticket) (t : Coordinator) (q' : KeyQueue Ticket)
    (gone come : List Bearing) (events : List Event) : Prop where
  before : Custody s q
  after : Custody t q'
  exchange : Exchange s t gone come
  noted : t.history.toList = s.history.toList ++ events
  policy : t.shutdownPolicy = s.shutdownPolicy
  closes : q.closed = true → q'.closed = true

section Passages

variable {gone come : List Bearing} {events : List Event}
  {driven refused dropped driven' refused' dropped' : List Nat}

theorem Passage.callsOf (passage : Passage s q t q' gone come events) (n : Nat) :
    t.callsOf n = s.callsOf n ++ (events.filter (·.worksOn = some n)).filterMap Event.call? := by
  rw [Coordinator.callsOf, work, passage.noted, List.filter_append, List.filterMap_append]
  rfl

theorem Passage.callsOf_of_quiet (passage : Passage s q t q' gone come events)
    (quiet : ∀ event ∈ events, event.call? = none) (n : Nat) : t.callsOf n = s.callsOf n := by
  have silent : (events.filter (·.worksOn = some n)).filterMap Event.call? = [] :=
    List.filterMap_eq_nil_iff.mpr fun event member => quiet event (List.mem_of_mem_filter member)
  rw [passage.callsOf, silent, List.append_nil]

theorem callOn?_of_call? {event : Event} (quiet : event.call? = none) :
    event.callOn? key = none := by
  cases event with
  | called => cases quiet
  | _ => rfl

theorem Ordered.arrange (ordered : Ordered jobs s q key driven refused dropped)
    (passage : Passage s q t q' gone come events) (more : List Job)
    (quiet : ∀ event ∈ events, event.call? = none ∧ event.admitsOn? key = none)
    (order : driven' ++ refused' ++ (t.bearingsOn key).map Bearing.serial ++
      (q'.waitingOn key).map (·.serial) ++ dropped' =
      driven ++ refused ++ (s.bearingsOn key).map Bearing.serial ++
        (q.waitingOn key).map (·.serial) ++ dropped)
    (calls : (driven' ++ (t.bearingsOn key).map Bearing.serial).flatMap
        (fun n => (s.callsOf n).map (n, ·)) =
      (driven ++ (s.bearingsOn key).map Bearing.serial).flatMap fun n => (s.callsOf n).map (n, ·))
    (returned : ∀ n ∈ driven', t.Returned key n)
    (settled : ∀ done, .settled done ∈ t.bearingsOn key → t.Returned key done.serial)
    (stuck : refused' ≠ [] → q'.mark key = 1 ∧ t.bearingsOn key = [])
    (discarded : ∀ n ∈ refused' ++ dropped', .discarded n key ∈ t.history.toList)
    (shut : dropped' ≠ [] → q'.closed = true ∧ t.shutdownPolicy = .discard) :
    Ordered (jobs ++ more) t q' key driven' refused' dropped' := by
  have callsOf : t.callsOf = s.callsOf := funext fun n =>
    passage.callsOf_of_quiet (fun event member => (quiet event member).1) n
  have callsOn : t.callsOn key = s.callsOn key := by
    rw [Coordinator.callsOn, passage.noted, List.filterMap_append, List.filterMap_eq_nil_iff.mpr
      fun event member => callOn?_of_call? (quiet event member).1, List.append_nil]
    rfl
  have admissionsOn : t.admissionsOn key = s.admissionsOn key := by
    rw [Coordinator.admissionsOn, passage.noted, List.filterMap_append,
      List.filterMap_eq_nil_iff.mpr fun event member => (quiet event member).2, List.append_nil]
    rfl
  refine ⟨?_, ?_, returned, settled, stuck, discarded, shut, ?_⟩
  · rw [admissionsOn, ordered.order, order]
  · rw [callsOn, callsOf, ordered.calls, calls]
  · intro n admitted
    obtain ⟨job, numbered, filed⟩ := ordered.filed n (admissionsOn ▸ admitted)
    exact ⟨job, numbered_append numbered more, filed⟩

theorem Ordered.still_discarded (ordered : Ordered jobs s q key driven refused dropped)
    (passage : Passage s q t q' gone come events) :
    ∀ n ∈ refused ++ dropped, .discarded n key ∈ t.history.toList := fun n member =>
  passage.noted ▸ List.mem_append_left _ (ordered.discarded n member)

theorem Ordered.still_shut (ordered : Ordered jobs s q key driven refused dropped)
    (passage : Passage s q t q' gone come events) (some : dropped ≠ []) :
    q'.closed = true ∧ t.shutdownPolicy = .discard :=
  ⟨passage.closes (ordered.shut some).1, passage.policy ▸ (ordered.shut some).2⟩

theorem Ordered.none_refused (ordered : Ordered jobs s q key driven refused dropped)
    (held : s.bearingsOn key ≠ []) : refused = [] := by
  by_contra some
  exact held (ordered.stuck some).2

theorem Ordered.stay (ordered : Ordered jobs s q key driven refused dropped)
    (passage : Passage s q t q' gone come events) (more : List Job)
    (quiet : ∀ event ∈ events, event.call? = none ∧ event.admitsOn? key = none)
    (bearings : (t.bearingsOn key).map Bearing.serial = (s.bearingsOn key).map Bearing.serial)
    (settled : ∀ done, .settled done ∈ t.bearingsOn key → t.Returned key done.serial)
    (waiting : q'.waitingOn key = q.waitingOn key) (mark : q'.mark key = q.mark key) :
    Ordered (jobs ++ more) t q' key driven refused dropped := by
  refine ordered.arrange passage more quiet (by rw [bearings, waiting]) (by rw [bearings])
    (fun n member => (ordered.returned n member).of_noted passage.noted) settled ?_
    (ordered.still_discarded passage) (ordered.still_shut passage)
  intro some
  obtain ⟨marked, idle⟩ := ordered.stuck some
  rw [idle, List.map_nil, List.map_eq_nil_iff] at bearings
  exact ⟨mark ▸ marked, bearings⟩

theorem Ordered.bystand (ordered : Ordered jobs s q key driven refused dropped)
    (passage : Passage s q t q' gone come events) (more : List Job)
    (quiet : ∀ event ∈ events, event.call? = none ∧ event.admitsOn? key = none)
    (off : gone.filter (·.key = key) = [] ∧ come.filter (·.key = key) = [])
    (waiting : q'.waitingOn key = q.waitingOn key) (mark : q'.mark key = q.mark key) :
    Ordered (jobs ++ more) t q' key driven refused dropped := by
  have same := passage.exchange.off passage.before off.1 off.2
  refine ordered.stay passage more quiet (by rw [same]) ?_ waiting mark
  intro done present
  exact (ordered.settled done (same ▸ present)).of_noted passage.noted

theorem Ordered.handOut {ticket : Ticket} (ordered : Ordered jobs s q key driven refused dropped)
    (passage : Passage s q t q' [] [.fresh ticket] []) (more : List Job)
    (taken : q.tryActivate key = (some ticket, q')) (uncalled : s.callsOf ticket.serial = []) :
    Ordered (jobs ++ more) t q' key driven refused dropped := by
  have filed := passage.before.key_of_tryActivate taken
  obtain ⟨before, after⟩ := passage.exchange.on passage.before passage.after key
    (.inr (by simp [Bearing.key, filed]))
  simp only [List.filter_cons, List.filter_nil, Bearing.key, filed, decide_true, if_true] at before after
  obtain ⟨waiting, -⟩ := KeyQueue.waitingOn_tryActivate taken
  have none_refused : refused = [] := by
    by_contra some
    have marked := (ordered.stuck some).1
    rw [KeyQueue.mark_of_tryActivate taken] at marked
    cases marked
  subst none_refused
  refine ordered.arrange passage more (by simp) ?_ ?_
    (fun n member => (ordered.returned n member).of_noted passage.noted) ?_ (by simp)
    (ordered.still_discarded passage) (ordered.still_shut passage)
  · simp [before, after, waiting, Bearing.serial]
  · simp [before, after, Bearing.serial, uncalled]
  · rw [after]
    intro done present
    cases List.mem_singleton.mp present

theorem Ordered.handOver {done : Driven} {next : Ticket}
    (ordered : Ordered jobs s q done.key driven refused dropped)
    (passage : Passage s q t q' [.settled done] [.fresh next] []) (more : List Job)
    (released : q.release done.key = .ok (some next, q')) (uncalled : s.callsOf next.serial = []) :
    Ordered (jobs ++ more) t q' done.key (driven ++ [done.serial]) refused dropped := by
  have filed := passage.before.key_of_release released
  obtain ⟨before, after⟩ := passage.exchange.on passage.before passage.after done.key
    (.inl (by simp [Bearing.key]))
  simp only [List.filter_cons, List.filter_nil, Bearing.key, filed, decide_true, if_true] at before after
  obtain ⟨waiting, -⟩ := KeyQueue.waitingOn_release_some released
  obtain rfl := ordered.none_refused (by simp [before])
  refine ordered.arrange passage more (by simp) ?_ ?_ ?_ ?_ (by simp)
    (ordered.still_discarded passage) (ordered.still_shut passage)
  · simp [before, after, waiting, Bearing.serial]
  · simp [before, after, Bearing.serial, uncalled]
  · intro n member
    rcases List.mem_append.mp member with earlier | now
    · exact (ordered.returned n earlier).of_noted passage.noted
    · rw [List.mem_singleton.mp now]
      exact (ordered.settled done (by simp [before])).of_noted passage.noted
  · rw [after]
    intro other present
    cases List.mem_singleton.mp present

theorem Ordered.closeLine {done : Driven}
    (ordered : Ordered jobs s q done.key driven refused dropped)
    (passage : Passage s q t q' [.settled done] [] []) (more : List Job)
    (released : q.release done.key = .ok (none, q')) :
    Ordered (jobs ++ more) t q' done.key (driven ++ [done.serial]) refused dropped := by
  obtain ⟨before, after⟩ := passage.exchange.on passage.before passage.after done.key
    (.inl (by simp [Bearing.key]))
  simp only [List.filter_cons, List.filter_nil, Bearing.key, decide_true, if_true] at before after
  obtain ⟨-, waiting⟩ := KeyQueue.waitingOn_release_none released
  obtain rfl := ordered.none_refused (by simp [before])
  refine ordered.arrange passage more (by simp) ?_ ?_ ?_ (by simp [after]) (by simp)
    (ordered.still_discarded passage) (ordered.still_shut passage)
  · simp [before, after, waiting, Bearing.serial]
  · simp [before, after, Bearing.serial]
  · intro n member
    rcases List.mem_append.mp member with earlier | now
    · exact (ordered.returned n earlier).of_noted passage.noted
    · rw [List.mem_singleton.mp now]
      exact (ordered.settled done (by simp [before])).of_noted passage.noted

theorem Ordered.refuse {next : Ticket}
    (ordered : Ordered jobs s q next.job.key driven refused dropped)
    (passage : Passage s q t q [.fresh next] [] [.discarded next.serial next.job.key])
    (more : List Job) (uncalled : s.callsOf next.serial = []) :
    Ordered (jobs ++ more) t q next.job.key driven [next.serial] dropped := by
  obtain ⟨before, after⟩ := passage.exchange.on passage.before passage.after next.job.key
    (.inl (by simp [Bearing.key]))
  simp only [List.filter_cons, List.filter_nil, Bearing.key, decide_true, if_true] at before after
  obtain rfl := ordered.none_refused (by simp [before])
  refine ordered.arrange passage more (by simp [Event.call?, Event.admitsOn?]) ?_ ?_
    (fun n member => (ordered.returned n member).of_noted passage.noted) (by simp [after]) ?_ ?_
    (ordered.still_shut passage)
  · simp [before, after, Bearing.serial]
  · simp [before, after, Bearing.serial, uncalled]
  · intro _
    have held := s.length_bearingsOn next.job.key
    rw [before, List.length_singleton] at held
    have marked := passage.before.exclusive next.job.key
    have bound := q.mark_le_one next.job.key
    exact ⟨by omega, after⟩
  · intro n member
    rcases List.mem_cons.mp member with rfl | earlier
    · simp [passage.noted]
    · exact ordered.still_discarded passage n earlier

theorem Ordered.discard (ordered : Ordered jobs s q key driven refused dropped)
    (passage : Passage s q t q.discardWaiting.2 [] []
      (q.allWaiting.map fun (key, ticket) => .discarded ticket.serial key))
    (more : List Job) (shut : q.closed = true ∧ s.shutdownPolicy = .discard) :
    Ordered (jobs ++ more) t q.discardWaiting.2 key driven refused
      ((q.waitingOn key).map (·.serial) ++ dropped) := by
  have same : t.bearingsOn key = s.bearingsOn key := passage.exchange.off passage.before rfl rfl
  have formed := passage.before.formed
  refine ordered.arrange passage more ?_ ?_ (by rw [same])
    (fun n member => (ordered.returned n member).of_noted passage.noted) ?_ ?_ ?_ ?_
  · intro event member
    obtain ⟨entry, -, rfl⟩ := List.mem_map.mp member
    exact ⟨rfl, rfl⟩
  · simp [same, formed.waitingOn_discardWaiting]
  · intro done present
    exact (ordered.settled done (same ▸ present)).of_noted passage.noted
  · intro some
    rw [formed.mark_discardWaiting, same]
    exact ordered.stuck some
  · intro n member
    simp only [List.mem_append, List.mem_map] at member
    rcases member with earlier | ⟨ticket, waits, rfl⟩ | earlier
    · exact ordered.still_discarded passage n (List.mem_append_left _ earlier)
    · rw [passage.noted]
      refine List.mem_append_right _ (List.mem_map.mpr ⟨(key, ticket), ?_, rfl⟩)
      exact formed.mem_waitingOn.mp waits
    · exact ordered.still_discarded passage n (List.mem_append_right _ earlier)
  · intro _
    exact ⟨passage.closes shut.1, passage.policy ▸ shut.2⟩

theorem Ordered.push {ticket : Ticket}
    (ordered : Ordered jobs s q ticket.job.key driven refused dropped)
    (passage : Passage s q t q' [] [] [.admitted ticket.serial ticket.job.key]) (more : List Job)
    (pushed : q.push ticket.job.key ticket = .ok q')
    (numbered : jobs[ticket.serial]? = some ticket.job) :
    Ordered (jobs ++ more) t q' ticket.job.key driven refused dropped := by
  have same : t.bearingsOn ticket.job.key = s.bearingsOn ticket.job.key :=
    passage.exchange.off passage.before rfl rfl
  have waiting : q'.waitingOn ticket.job.key = q.waitingOn ticket.job.key ++ [ticket] := by
    rw [KeyQueue.waitingOn_push pushed, if_pos rfl]
  have none_dropped : dropped = [] := by
    by_contra some
    have closed := (ordered.shut some).1
    obtain ⟨opened, -⟩ := KeyQueue.push_eq_ok pushed
    rw [opened] at closed
    cases closed
  subst none_dropped
  have callsOf : t.callsOf = s.callsOf := funext fun n =>
    passage.callsOf_of_quiet (by simp [Event.call?]) n
  have callsOn : t.callsOn ticket.job.key = s.callsOn ticket.job.key := by
    simp [Coordinator.callsOn, passage.noted, Event.callOn?]
  have admissionsOn : t.admissionsOn ticket.job.key =
      s.admissionsOn ticket.job.key ++ [ticket.serial] := by
    simp [Coordinator.admissionsOn, passage.noted, Event.admitsOn?]
  refine ⟨?_, ?_, fun n member => (ordered.returned n member).of_noted passage.noted, ?_, ?_,
    ordered.still_discarded passage, by simp, ?_⟩
  · simp [admissionsOn, ordered.order, same, waiting]
  · rw [callsOn, callsOf, ordered.calls, same]
  · intro done present
    exact (ordered.settled done (same ▸ present)).of_noted passage.noted
  · rw [KeyQueue.mark_push pushed, same]
    exact ordered.stuck
  · intro n admitted
    have known : ∃ job, jobs[n]? = some job ∧ job.key = ticket.job.key := by
      rw [admissionsOn] at admitted
      rcases List.mem_append.mp admitted with before | now
      · exact ordered.filed n before
      · rw [List.mem_singleton.mp now]
        exact ⟨_, numbered, rfl⟩
    obtain ⟨job, present, filed⟩ := known
    exact ⟨job, numbered_append present more, filed⟩

theorem calls_of_made_eq (made : List JobCall) (n : Nat) (key : String) :
    (made.map (Event.called n key)).filterMap Event.call? = made := by
  induction made with
  | nil => rfl
  | cons call rest ih => simp [Event.call?, ih]

theorem calls_of_made (made : List JobCall) (serial : Nat) (other : String) (n : Nat) :
    ((made.map (Event.called serial other)).filter (·.worksOn = some n)).filterMap Event.call? =
      if serial = n then made else [] := by
  rw [works_called]
  split
  · exact calls_of_made_eq made serial other
  · rfl

theorem callsOn_of_made (made : List JobCall) (serial : Nat) (other key : String) :
    (made.map (Event.called serial other)).filterMap (Event.callOn? key) =
      if other = key then made.map (serial, ·) else [] := by
  induction made with
  | nil => split <;> rfl
  | cons call rest ih => by_cases same : other = key <;> simp_all [Event.callOn?]

theorem Passage.callsOf_of_made {ticket : Ticket} {made : List JobCall}
    (passage : Passage s q t q' gone come (made.map (.called ticket.serial ticket.job.key)))
    (n : Nat) : t.callsOf n = s.callsOf n ++ if ticket.serial = n then made else [] := by
  rw [passage.callsOf, calls_of_made]

theorem Passage.callsOn_of_made {ticket : Ticket} {made : List JobCall}
    (passage : Passage s q t q' gone come (made.map (.called ticket.serial ticket.job.key)))
    (key : String) : t.callsOn key = s.callsOn key ++
      if ticket.job.key = key then made.map (ticket.serial, ·) else [] := by
  rw [callsOn, passage.noted, List.filterMap_append, Coordinator.callsOn_of_made]
  rfl

section Driving

variable {ticket : Ticket} {d d' : Drive} {made : List JobCall}

theorem Ordered.calls_drive (ordered : Ordered jobs s q ticket.job.key driven refused dropped)
    (passage : Passage s q t q [.underway ticket d] [.underway ticket d']
      (made.map (.called ticket.serial ticket.job.key)))
    (once : (s.admissionsOn ticket.job.key).Nodup) :
    t.callsOn ticket.job.key = (driven ++ (s.bearingsOn ticket.job.key).map Bearing.serial).flatMap
      fun n => (t.callsOf n).map (n, ·) := by
  obtain ⟨before, -⟩ := passage.exchange.on passage.before passage.after ticket.job.key
    (.inl (by simp [Bearing.key]))
  simp only [List.filter_cons, List.filter_nil, Bearing.key, decide_true, if_true] at before
  have apart : ∀ n ∈ driven, ticket.serial ≠ n := by
    rintro n member rfl
    rw [ordered.order, before] at once
    simp only [List.append_assoc] at once
    exact (List.nodup_append.mp once).2.2 _ member _ (by simp [Bearing.serial]) rfl
  have unchanged : driven.flatMap (fun n => (t.callsOf n).map (n, ·)) =
      driven.flatMap fun n => (s.callsOf n).map (n, ·) :=
    List.flatMap_congr fun n member => by
      rw [passage.callsOf_of_made, if_neg (apart n member), List.append_nil]
  rw [passage.callsOn_of_made, if_pos rfl, ordered.calls, before, List.map_singleton,
    List.flatMap_append, List.flatMap_append, unchanged]
  simp [Bearing.serial, passage.callsOf_of_made]

theorem Ordered.calls_drive_of_ne (ordered : Ordered jobs s q key driven refused dropped)
    (passage : Passage s q t q [.underway ticket d] [.underway ticket d']
      (made.map (.called ticket.serial ticket.job.key)))
    (numbered : jobs[ticket.serial]? = some ticket.job) (other : ticket.job.key ≠ key) :
    t.callsOn key = (driven ++ (s.bearingsOn key).map Bearing.serial).flatMap
      fun n => (t.callsOf n).map (n, ·) := by
  rw [passage.callsOn_of_made, if_neg other, List.append_nil, ordered.calls]
  apply List.flatMap_congr
  intro n member
  have admitted : n ∈ s.admissionsOn key := by
    rw [ordered.order]
    simp only [List.mem_append] at member ⊢
    rcases member with earlier | now
    · exact .inl (.inl (.inl (.inl earlier)))
    · exact .inl (.inl (.inr now))
  have apart : ticket.serial ≠ n := by
    rintro rfl
    obtain ⟨job, present, filed⟩ := ordered.filed _ admitted
    rw [numbered, Option.some.injEq] at present
    exact other (present ▸ filed)
  rw [passage.callsOf_of_made, if_neg apart, List.append_nil]

/-- A step of a drive keeps the jobs in order, for every job of the key that was driven before is over
and none that comes later has begun. -/
theorem Ordered.drive (ordered : Ordered jobs s q key driven refused dropped)
    (passage : Passage s q t q [.underway ticket d] [.underway ticket d']
      (made.map (.called ticket.serial ticket.job.key)))
    (more : List Job) (once : (s.admissionsOn key).Nodup)
    (numbered : jobs[ticket.serial]? = some ticket.job) :
    Ordered (jobs ++ more) t q key driven refused dropped := by
  have admissionsOn : t.admissionsOn key = s.admissionsOn key := by
    have none_admitted : (made.map (Event.called ticket.serial ticket.job.key)).filterMap
        (Event.admitsOn? key) = [] := by simp [Event.admitsOn?]
    rw [Coordinator.admissionsOn, passage.noted, List.filterMap_append, none_admitted,
      List.append_nil]
    rfl
  have serials : (t.bearingsOn key).map Bearing.serial = (s.bearingsOn key).map Bearing.serial :=
    passage.exchange.serials passage.before passage.after rfl rfl
  refine ⟨?_, ?_, fun n member => (ordered.returned n member).of_noted passage.noted, ?_, ?_,
    ordered.still_discarded passage, ordered.still_shut passage, ?_⟩
  · rw [admissionsOn, serials, ordered.order]
  · rw [serials]
    by_cases same : ticket.job.key = key
    · subst same
      exact ordered.calls_drive passage once
    · exact ordered.calls_drive_of_ne passage numbered same
  · intro done present
    rcases passage.exchange.mem_bearingsOn present with now | earlier
    · cases List.mem_singleton.mp now
    · exact (ordered.settled done earlier).of_noted passage.noted
  · intro some
    obtain ⟨marked, idle⟩ := ordered.stuck some
    rw [idle, List.map_nil, List.map_eq_nil_iff] at serials
    exact ⟨marked, serials⟩
  · intro n admitted
    obtain ⟨job, present, filed⟩ := ordered.filed n (admissionsOn ▸ admitted)
    exact ⟨job, numbered_append present more, filed⟩

end Driving

end Passages

theorem Charted.uncalled_of_fresh (charted : Charted fits jobs s q) {ticket : Ticket}
    (present : .fresh ticket ∈ s.bearings) : s.callsOf ticket.serial = [] := by
  obtain ⟨unended, idle⟩ := charted.balanced.idle_of_fresh charted.placed present
  rw [callsOf, (charted.standing ticket.serial).unstarted unended idle]
  rfl

theorem Charted.uncalled_of_waiting (charted : Charted fits jobs s q) (waits : n ∈ q.serials) :
    s.callsOf n = [] := by
  obtain ⟨unended, idle⟩ := charted.balanced.idle_of_waiting charted.placed waits
  rw [callsOf, (charted.standing n).unstarted unended idle]
  rfl

theorem admits_of_admitsOn? (events : List Event) (key : String) :
    (events.filterMap (Event.admitsOn? key)).Sublist (events.flatMap Event.admits) := by
  induction events with
  | nil => exact .refl _
  | cons event rest ih =>
      rw [List.flatMap_cons]
      cases event with
      | admitted serial other =>
          by_cases same : other = key
          · simpa [Event.admitsOn?, Event.admits, same] using ih
          · simpa [Event.admitsOn?, Event.admits, same] using ih.trans (List.sublist_cons_self _ _)
      | _ => exact ih

theorem Placed.nodup_admissionsOn (placed : Placed s q) (key : String) :
    (s.admissionsOn key).Nodup :=
  (admits_of_admitsOn? s.history.toList key).nodup
    (List.nodup_iff_count.mpr placed.admitted_le_one)

/-- Whatever moves, the jobs of the key stay in order. -/
theorem Ordered.of_transition {driven refused dropped : List Nat}
    (ordered : Ordered jobs s q key driven refused dropped) (charted : Charted fits jobs s q)
    (custody : Custody s q) (discarding : Discarding s q) (move : Transition s q m t q') :
    ∃ driven refused dropped, Ordered (jobs ++ m.jobs) t q' key driven refused dropped := by
  obtain ⟨gone, come, events, shift, exchange, noted⟩ := move.shift
  have passage : Passage s q t q' gone come events :=
    ⟨custody, custody.of_transition move, exchange, noted, shutdownPolicy_of_transition move,
      fun closed => queue_closed_of_transition closed move⟩
  cases shift with
  | rest silent same =>
      refine ⟨_, _, _, ordered.bystand passage m.jobs ?_ ⟨rfl, rfl⟩ ?_ ?_⟩
      · intro event member
        have quiet := silent event member
        cases event with
        | counted => exact ⟨rfl, rfl⟩
        | _ => cases quiet
      · rw [KeyQueue.waitingOn, KeyQueue.waitingOn, KeyQueue.line?, KeyQueue.line?, same]
      · rw [KeyQueue.mark, KeyQueue.mark, KeyQueue.line?, KeyQueue.line?, same]
  | @push i ticket _ found pushed =>
      have numbered : jobs[ticket.serial]? = some ticket.job := by
        refine charted.roster.numbered ticket ?_
        simp only [tickets, List.mem_append, List.mem_flatMap]
        exact .inl (.inl (.inl ⟨_, List.mem_of_getElem? found, List.mem_singleton.mpr rfl⟩))
      by_cases same : ticket.job.key = key
      · subst same
        exact ⟨_, _, _, ordered.push passage m.jobs pushed numbered⟩
      · refine ⟨_, _, _, ordered.bystand passage m.jobs (by simp [Event.call?, Event.admitsOn?, same])
          ⟨rfl, rfl⟩ ?_ (KeyQueue.mark_push pushed)⟩
        rw [KeyQueue.waitingOn_push pushed, if_neg (Ne.symm same)]
  | @handOut active ticket _ taken =>
      have filed := custody.key_of_tryActivate taken
      by_cases same : active = key
      · subst same
        refine ⟨_, _, _, ordered.handOut passage m.jobs taken (charted.uncalled_of_waiting ?_)⟩
        exact (serials_tryActivate taken).mem_iff.mpr List.mem_cons_self
      · refine ⟨_, _, _, ordered.bystand passage m.jobs (by simp)
          ⟨rfl, by simp [Bearing.key, filed, same]⟩
          ((KeyQueue.waitingOn_tryActivate taken).2 key (Ne.symm same)) ?_⟩
        rw [KeyQueue.mark_tryActivate taken, if_neg (Ne.symm same)]
  | begin ticket =>
      refine ⟨_, _, _, ordered.stay passage m.jobs (by simp)
        (exchange.serials custody passage.after rfl rfl) ?_ rfl rfl⟩
      intro done present
      rcases exchange.mem_bearingsOn present with now | earlier
      · cases List.mem_singleton.mp now
      · exact (ordered.settled done earlier).of_noted passage.noted
  | drive ticket going =>
      obtain ⟨kept, before, -⟩ := exchange
      have numbered := charted.roster.numbered_bearing (before.mem_iff.mpr List.mem_cons_self)
        (List.mem_singleton.mpr rfl)
      exact ⟨_, _, _, ordered.drive passage m.jobs (charted.placed.nodup_admissionsOn key) numbered⟩
  | finish ticket ended outcome =>
      refine ⟨_, _, _, ordered.stay passage m.jobs (by simp [Event.call?, Event.admitsOn?])
        (exchange.serials custody passage.after rfl rfl) ?_ rfl rfl⟩
      intro done present
      have filed := of_decide_eq_true (List.mem_filter.mp present).2
      rcases exchange.mem_bearingsOn present with now | earlier
      · obtain rfl := Bearing.settled.inj (List.mem_singleton.mp now)
        exact ⟨_, by rw [noted, ← filed]; exact List.mem_append_right _ List.mem_cons_self⟩
      · exact (ordered.settled done earlier).of_noted noted
  | @handOver done next _ released =>
      have filed := custody.key_of_release released
      by_cases same : done.key = key
      · subst same
        refine ⟨_, _, _, ordered.handOver passage m.jobs released (charted.uncalled_of_waiting ?_)⟩
        exact (serials_release_some released).mem_iff.mpr List.mem_cons_self
      · exact ⟨_, _, _, ordered.bystand passage m.jobs (by simp)
          ⟨by simp [Bearing.key, same], by simp [Bearing.key, filed, same]⟩
          ((KeyQueue.waitingOn_release_some released).2 key (Ne.symm same))
          (KeyQueue.mark_release_some released)⟩
  | @closeLine done _ marked released =>
      by_cases same : done.key = key
      · subst same
        exact ⟨_, _, _, ordered.closeLine passage m.jobs released⟩
      · refine ⟨_, _, _, ordered.bystand passage m.jobs (by simp)
          ⟨by simp [Bearing.key, same], rfl⟩
          ((KeyQueue.waitingOn_release_none released).2 key) ?_⟩
        rw [KeyQueue.mark_release_none released, if_neg (Ne.symm same)]
  | refuse next closed =>
      by_cases same : next.job.key = key
      · subst same
        obtain ⟨kept, before, -⟩ := exchange
        exact ⟨_, _, _, ordered.refuse passage m.jobs
          (charted.uncalled_of_fresh (before.mem_iff.mpr List.mem_cons_self))⟩
      · exact ⟨_, _, _, ordered.bystand passage m.jobs (by simp [Event.call?, Event.admitsOn?])
          ⟨by simp [Bearing.key, same], rfl⟩ rfl rfl⟩
  | discard found =>
      exact ⟨_, _, _, ordered.discard passage m.jobs
        (discarding _ (List.mem_of_getElem? found))⟩

theorem Ordered.of_fresh (config : Config) (key : String) :
    Ordered [] (fresh config) .empty key [] [] [] := by
  have idle : (fresh config).bearingsOn key = [] := by
    refine List.length_eq_zero_iff.mp ?_
    rw [length_bearingsOn, holders, tally_workers_fresh config rfl]
    rfl
  refine ⟨?_, ?_, by simp, by simp [idle], by simp, by simp, by simp, ?_⟩
  · rw [idle]
    rfl
  · rw [idle]
    rfl
  · intro n admitted
    cases admitted

/-- All that is known of the jobs of a run. -/
structure Recorded (fits : Drive → Instant → Completions → Prop) (jobs : List Job)
    (s : Coordinator) (q : KeyQueue Ticket) : Prop where
  charted : Charted fits jobs s q
  discarding : Discarding s q
  ordered : ∀ key, ∃ driven refused dropped, Ordered jobs s q key driven refused dropped

theorem Recorded.of_transition (recorded : Recorded fits jobs s q) (custody : Custody s q)
    (fitting : ∀ ticket drive, .underway ticket drive ∈ s.bearings →
      fits drive s.now s.completions) (move : Transition s q m t q') :
    Recorded fits (jobs ++ m.jobs) t q' where
  charted := recorded.charted.of_transition custody fitting move
  discarding := recorded.discarding.of_transition move
  ordered key := by
    obtain ⟨_, _, _, ordered⟩ := recorded.ordered key
    exact ordered.of_transition recorded.charted custody recorded.discarding move

theorem Recorded.of_fresh (config : Config) : Recorded fits [] (fresh config) .empty where
  charted := .of_fresh config
  discarding _ member := by cases member
  ordered key := ⟨_, _, _, .of_fresh config key⟩

theorem Plays.recorded (plays : Plays rule config jobs s) :
    ∃ q, Custody s q ∧ Recorded Anyhow jobs s q :=
  plays.induct (.of_fresh config) fun _ custody recorded _ move =>
    recorded.of_transition custody (fun _ _ _ => trivial) move

theorem mem_work {event : Event} (recorded : event ∈ s.history.toList)
    (works : event.worksOn = some n) : event ∈ s.work n :=
  List.mem_filter.mpr ⟨recorded, decide_eq_true works⟩

theorem mem_endings {event : Event} (recorded : event ∈ s.history.toList) (ends : n ∈ event.ends) :
    n ∈ s.endings :=
  List.mem_flatMap.mpr ⟨event, recorded, ends⟩

theorem Charted.uncalled_of_discarded (charted : Charted fits jobs s q)
    (dropped : .discarded n key ∈ s.history.toList) : s.callsOf n = [] := by
  have course := (charted.standing n).ended (mem_endings dropped (List.mem_singleton.mpr rfl))
  have present : .discarded n key ∈ s.work n := mem_work dropped rfl
  unfold callsOf
  generalize s.work n = events at course present
  cases course with
  | driven => simp at present
  | dropped => rfl

theorem Charted.drive (charted : Charted fits jobs s q) {job : Job} (numbered : jobs[n]? = some job) :
    ∃ drive, Traced fits s.policy job drive (s.callsOf n) ∧
      ∀ key, s.Returned key n → drive.resolution?.isSome := by
  have standing := charted.standing n
  by_cases ended : n ∈ s.endings
  · have course := standing.ended ended
    have returned : ∀ key, s.Returned key n → ∃ ending, .driven n key ending ∈ s.work n := by
      rintro key ⟨ending, recorded⟩
      exact ⟨ending, mem_work recorded rfl⟩
    unfold callsOf
    generalize s.work n = events at course returned
    cases course with
    | @driven present drive made _ worker numbered' traced ended =>
        obtain rfl : present = job := Option.some.inj (numbered'.symm.trans numbered)
        refine ⟨drive, ?_, fun _ _ => by rw [ended]; rfl⟩
        rw [List.filterMap_append, calls_of_made_eq]
        exact (List.append_nil made).symm ▸ traced
    | dropped numbered' =>
        refine ⟨Drive.begin job, .begin, ?_⟩
        intro key returns
        obtain ⟨ending, present⟩ := returned key returns
        simp at present
  · have unreturned : ∀ key, s.Returned key n → False := by
      rintro key ⟨ending, recorded⟩
      exact ended (mem_endings recorded (List.mem_singleton.mpr rfl))
    by_cases driven : n ∈ s.underway
    · obtain ⟨ticket, drive, present, rfl⟩ := mem_underway.mp driven
      obtain ⟨made, traced, worked⟩ := standing.started ticket drive present rfl
      have numbered' := charted.roster.numbered_bearing present (List.mem_singleton.mpr rfl)
      obtain rfl : ticket.job = job := Option.some.inj (numbered'.symm.trans numbered)
      refine ⟨drive, ?_, fun key returns => absurd returns (unreturned key)⟩
      rwa [callsOf, worked, calls_of_made_eq]
    · refine ⟨Drive.begin job, ?_, fun key returns => absurd returns (unreturned key)⟩
      rw [callsOf, standing.unstarted ended driven]
      exact .begin

/-- The job is being driven or has been called. -/
def Begun (s : Coordinator) (n : Nat) : Prop := n ∈ s.underway ∨ s.callsOf n ≠ []

/-- The drive of the job is over and its key has been released. -/
def Done (s : Coordinator) (key : String) (n : Nat) : Prop :=
  s.Returned key n ∧ n ∉ (s.bearingsOn key).map Bearing.serial

/-- What it means that the jobs of a key are executed one after the other. -/
structure Serial (jobs : List Job) (s : Coordinator) (key : String) : Prop where
  once : (s.admissionsOn key).Nodup
  /-- The calls are those of the jobs one after the other, in the order of their admission. -/
  calls : s.callsOn key = (s.admissionsOn key).flatMap fun n => (s.callsOf n).map (n, ·)
  /-- The calls into a job are those of one drive, which is over if it has returned: the attempts,
  numbered from one on, and then perhaps the compensation. -/
  drives : ∀ n ∈ s.admissionsOn key, ∃ job drive, jobs[n]? = some job ∧ job.key = key ∧
    Traced Anyhow s.policy job drive (s.callsOf n) ∧
    (s.Returned key n → drive.resolution?.isSome) ∧
    (s.callsOf n).map JobCall.number? = (List.range drive.calls).map (some <| · + 1) ++
      if drive.phase.hasReverted then [none] else []
  /-- A job begins when all jobs before it have been driven to their ends and released. -/
  turns : (s.admissionsOn key).Pairwise fun earlier later => s.Begun later → s.Done key earlier
  dropped : ∀ n, .discarded n key ∈ s.history.toList → ¬ s.Begun n

theorem Charted.not_begun_of_discarded (charted : Charted fits jobs s q)
    (dropped : .discarded n key ∈ s.history.toList) : ¬ s.Begun n := by
  rintro (driven | called)
  · have ended := mem_endings dropped (List.mem_singleton.mpr rfl)
    have alone := charted.balanced.alone charted.placed n
    have present := List.count_pos_iff.mpr ended
    have driven := List.count_pos_iff.mpr (driven_subset_unended _ driven)
    unfold unended at alone
    omega
  · exact called (charted.uncalled_of_discarded dropped)

theorem Charted.not_begun_of_waiting (charted : Charted fits jobs s q) (waits : n ∈ q.serials) :
    ¬ s.Begun n := by
  rintro (driven | called)
  · exact (charted.balanced.idle_of_waiting charted.placed waits).2 driven
  · exact called (charted.uncalled_of_waiting waits)

theorem callsOf_of_not_begun {list : List Nat} (unbegun : ∀ n ∈ list, ¬ s.Begun n) :
    list.flatMap (fun n => (s.callsOf n).map (n, ·)) = [] := by
  rw [List.flatMap_eq_nil_iff]
  intro n member
  rw [List.map_eq_nil_iff]
  by_contra called
  exact unbegun n member (.inr called)

section Beginnings

variable {driven refused dropped : List Nat}

theorem Ordered.not_begun (ordered : Ordered jobs s q key driven refused dropped)
    (charted : Charted fits jobs s q) (custody : Custody s q) :
    ∀ n ∈ refused ++ ((q.waitingOn key).map (·.serial) ++ dropped), ¬ s.Begun n := by
  intro n member
  simp only [List.mem_append, List.mem_map] at member
  rcases member with refused | ⟨ticket, waits, rfl⟩ | dropped
  · exact charted.not_begun_of_discarded
      (ordered.discarded n (List.mem_append_left _ refused))
  · exact charted.not_begun_of_waiting
      (List.mem_map_of_mem (custody.formed.mem_waitingOn.mp waits))
  · exact charted.not_begun_of_discarded
      (ordered.discarded n (List.mem_append_right _ dropped))

theorem Ordered.serial_calls (ordered : Ordered jobs s q key driven refused dropped)
    (charted : Charted fits jobs s q) (custody : Custody s q) :
    s.callsOn key = (s.admissionsOn key).flatMap fun n => (s.callsOf n).map (n, ·) := by
  have unbegun := ordered.not_begun charted custody
  have none_refused := callsOf_of_not_begun fun n member =>
    unbegun n (List.mem_append_left _ member)
  have none_later := callsOf_of_not_begun fun n member =>
    unbegun n (List.mem_append_right _ member)
  rw [List.flatMap_append, List.append_eq_nil_iff] at none_later
  rw [ordered.calls, ordered.order]
  simp only [List.flatMap_append, none_refused, none_later, List.append_nil]

theorem Ordered.turns (ordered : Ordered jobs s q key driven refused dropped)
    (charted : Charted fits jobs s q) (custody : Custody s q) :
    (s.admissionsOn key).Pairwise fun earlier later => s.Begun later → s.Done key earlier := by
  have unbegun := ordered.not_begun charted custody
  have once := charted.placed.nodup_admissionsOn key
  rw [ordered.order, List.append_assoc, List.append_assoc, List.append_assoc] at once ⊢
  have done : ∀ n ∈ driven, s.Done key n := fun n member =>
    ⟨ordered.returned n member, fun held =>
      (List.nodup_append.mp once).2.2 n member n (by simp [held]) rfl⟩
  refine List.pairwise_append.mpr ⟨?_, ?_, fun n member _ _ _ => done n member⟩
  · exact List.pairwise_of_forall_mem_list fun n member _ _ _ => done n member
  · by_cases idle : s.bearingsOn key = []
    · rw [idle, List.map_nil, List.nil_append]
      exact List.pairwise_of_forall_mem_list fun _ _ n member begun =>
        absurd begun (unbegun n member)
    · -- The job that is handed out is the first of those that are left.
      have none_refused := ordered.none_refused idle
      obtain ⟨bearing, single⟩ := List.length_eq_one_iff.mp
        (Nat.le_antisymm (custody.length_bearingsOn key) (List.length_pos_iff.mpr idle))
      rw [none_refused, List.nil_append] at unbegun ⊢
      rw [single, List.map_singleton, List.singleton_append, List.pairwise_cons]
      exact ⟨fun n member begun => absurd begun (unbegun n member),
        List.pairwise_of_forall_mem_list fun _ _ n member begun =>
          absurd begun (unbegun n member)⟩

end Beginnings

theorem Recorded.serial (recorded : Recorded Anyhow jobs s q) (custody : Custody s q)
    (key : String) : Serial jobs s key := by
  obtain ⟨charted, -, ordered⟩ := recorded
  obtain ⟨driven, refused, dropped, ordered⟩ := ordered key
  refine ⟨charted.placed.nodup_admissionsOn key, ordered.serial_calls charted custody, ?_,
    ordered.turns charted custody, fun n => charted.not_begun_of_discarded⟩
  intro n admitted
  obtain ⟨job, numbered, filed⟩ := ordered.filed n admitted
  obtain ⟨drive, traced, ended⟩ := charted.drive numbered
  exact ⟨job, drive, numbered, filed, traced, ended key, traced.numbers⟩

/-- Whatever the threads do and in whatever order, the jobs of a key are executed one after the
other, in the order of their admission. -/
theorem serial_of_plays (plays : Plays Free config jobs s) (key : String) : Serial jobs s key := by
  obtain ⟨q, custody, recorded⟩ := plays.recorded
  exact recorded.serial custody key

/-- The first attempt of a job has failed and its retry has succeeded; the next job of its key has
been called once. -/
theorem serial_of_retried_job :
    let first := (Job.new "A" fun n => if n = 1 then .fails ⟨["no"]⟩ else .writes []).withMaxRetries 1
    let second := Job.new "A" fun _ => .writes []
    let moves : List Move := [.begin (.enqueue first), .begin (.enqueue second), .call 0, .call 0,
      .call 0, .call 0, .call 1, .call 1] ++ List.replicate 20 (.worker 0)
    let s := (fresh (.default .single)).follow moves
    Plays Free (.default .single) [first, second] s ∧ s.callsOn "A" ≠ [] ∧
      Serial [first, second] s "A" := by
  intro first second moves s
  have possible : (fresh (.default .single)).canFollow moves = true := by decide
  have plays : Plays Free (.default .single) [first, second] s := .free rfl possible
  exact ⟨plays, by decide, serial_of_plays plays "A"⟩

end Coordinator

end KeyedJobs
