import KeyedJobs.Proofs.Coordinator.Places

/-! # Runs and the jobs that they bring

A run with the jobs that its calls bring, in order. A job's number is its place in that order, and
wherever the job goes, its ticket keeps the number and the job together. The moves of a run may be
held to a rule.
-/

namespace KeyedJobs

/-- The jobs that the call brings. -/
def Request.jobs : Request → List Job
  | .enqueue job => [job]
  | _ => []

/-- The job that the call has and has not pushed. -/
def Stage.tickets : Stage → List Ticket
  | .checking ticket | .pushing ticket | .refusing ticket => [ticket]
  | _ => []

/-- The jobs that the worker has, but for one that it is done with. -/
def Worker.tickets : Worker → List Ticket
  | .holding ticket | .driving ticket _ | .resuming ticket _ | .shedding ticket _ _ => [ticket]
  | _ => []

def Signal.tickets : Signal → List Ticket
  | .resume ticket => [ticket]
  | .wake _ => []

theorem numbered_append {jobs : List Job} {n : Nat} {job : Job} (numbered : jobs[n]? = some job)
    (more : List Job) : (jobs ++ more)[n]? = some job := by
  obtain ⟨inRange, -⟩ := List.getElem?_eq_some_iff.mp numbered
  rw [List.getElem?_append_left inRange, numbered]

namespace Coordinator

/-- The jobs that the move brings. -/
def Move.jobs : Move → List Job
  | .begin request => request.jobs
  | _ => []

variable {config : Config} {s t : Coordinator} {q q' : KeyQueue Ticket} {m : Move}
  {jobs : List Job} {rule : Coordinator → Move → Prop}

/-- The jobs that have been brought and neither been handed back nor driven. -/
def tickets (s : Coordinator) (q : KeyQueue Ticket) : List Ticket :=
  s.calls.flatMap Stage.tickets ++ q.allWaiting.map (·.2) ++ s.workers.flatMap Worker.tickets ++
    s.channel.held.flatMap Signal.tickets

/-- A run whose moves keep to the rule, with the jobs that it has brought. -/
inductive Plays (rule : Coordinator → Move → Prop) (config : Config) :
    List Job → Coordinator → Prop where
  | start {origin : Coordinator} (started : start config = .ok origin) :
      Plays rule config [] origin
  | step {jobs : List Job} {s : Coordinator} (m : Move) (plays : Plays rule config jobs s)
      (possible : s.canMove m = true) (keeps : rule s m) :
      Plays rule config (jobs ++ m.jobs) (s.move m)

/-- Any move will do. -/
def Free (_ : Coordinator) (_ : Move) : Prop := True

theorem Plays.arises (plays : Plays rule config jobs s) : Arises config s := by
  induction plays with
  | start started => exact ⟨_, started, .refl _⟩
  | step m _ possible _ ih =>
      obtain ⟨origin, started, reaches⟩ := ih
      exact ⟨origin, started, reaches.step m possible⟩

theorem Arises.plays (arises : Arises config s) : ∃ jobs, Plays Free config jobs s := by
  obtain ⟨origin, started, reaches⟩ := arises
  induction reaches with
  | refl => exact ⟨[], .start started⟩
  | step m _ possible ih =>
      obtain ⟨jobs, plays⟩ := ih
      exact ⟨_, plays.step m possible trivial⟩

/-- What holds at the start and is kept by every transition of a run holds all along it. -/
theorem Plays.induct {P : List Job → Coordinator → KeyQueue Ticket → Prop}
    (plays : Plays rule config jobs s) (starts : P [] (fresh config) .empty)
    (keeps : ∀ {jobs s q m t q'}, Plays rule config jobs s → Custody s q → P jobs s q → rule s m →
      Transition s q m t q' → P (jobs ++ m.jobs) t q') :
    ∃ q, Custody s q ∧ P jobs s q := by
  induction plays with
  | start started =>
      obtain rfl := start_eq_ok started
      exact ⟨_, .of_fresh config, starts⟩
  | step m plays possible keep ih =>
      obtain ⟨q, custody, holds⟩ := ih
      obtain ⟨q', move⟩ := custody.transition possible
      exact ⟨q', custody.of_transition move, keeps plays custody holds keep move⟩

theorem Plays.follow (plays : Plays rule config jobs s) {moves : List Move}
    (possible : s.canFollow moves = true) (keeps : ∀ s m, rule s m) :
    Plays rule config (jobs ++ moves.flatMap Move.jobs) (s.follow moves) := by
  induction moves generalizing jobs s with
  | nil => exact (List.append_nil jobs).symm ▸ plays
  | cons m rest ih =>
      simp only [canFollow, Bool.and_eq_true] at possible
      rw [List.flatMap_cons, ← List.append_assoc]
      exact ih (plays.step m possible.1 (keeps s m)) possible.2

theorem Plays.free (valid : config.validate = .ok ()) {moves : List Move}
    (possible : (fresh config).canFollow moves = true) :
    Plays Free config (moves.flatMap Move.jobs) ((fresh config).follow moves) := by
  have started : Coordinator.start config = Except.ok (fresh config) := by
    rw [Coordinator.start, valid]
    rfl
  exact (Plays.start started).follow possible fun _ _ => trivial

/-- Every job has the number of its place, wherever it is. -/
structure Roster (jobs : List Job) (s : Coordinator) (q : KeyQueue Ticket) : Prop where
  brought : s.brought = jobs.length
  numbered : ∀ ticket ∈ s.tickets q, jobs[ticket.serial]? = some ticket.job

theorem mem_tickets_of_workerStep {old new : Worker} (step : WorkerStep s q old new t q')
    {ticket : Ticket}
    (member : ticket ∈ new.tickets ∨ ticket ∈ t.channel.held.flatMap Signal.tickets) :
    ticket ∈ old.tickets ∨ ticket ∈ s.channel.held.flatMap Signal.tickets ∨
      ticket ∈ q.allWaiting.map (·.2) := by
  cases step with
  | takeWake front =>
      rcases member with none | signal
      · cases none
      · exact .inr (.inl (by simpa [front, Signal.tickets] using signal))
  | takeResume front =>
      refine .inr (.inl ?_)
      simpa [front, Signal.tickets, Worker.tickets] using member
  | activate taken =>
      rcases member with holds | signal
      · obtain rfl := List.mem_singleton.mp holds
        have present := (KeyQueue.allWaiting_tryActivate taken).mem_iff.mpr List.mem_cons_self
        exact .inr (.inr (List.mem_map_of_mem present))
      · exact .inr (.inl signal)
  | handOver released =>
      rcases member with holds | signal
      · obtain rfl := List.mem_singleton.mp holds
        have present := (KeyQueue.allWaiting_release_some released).mem_iff.mpr List.mem_cons_self
        exact .inr (.inr (List.mem_map_of_mem present))
      · exact .inr (.inl signal)
  | sendOn next done =>
      rcases member with none | signal
      · cases none
      · rw [List.flatMap_append, List.mem_append] at signal
        rcases signal with before | sent
        · exact .inr (.inl before)
        · exact .inl (by simpa [Signal.tickets, Worker.tickets] using sent)
  | drop next done =>
      unfold afterShedding at member
      split at member <;> exact member.elim (fun none => by cases none) fun signal =>
        .inr (.inl signal)
  | _ => exact member.imp (fun holds => by first | exact holds | cases holds) .inl

theorem tickets_of_workerStep (custody : Custody s q) {i : Nat} {old new : Worker}
    (found : s.workers[i]? = some old) (step : WorkerStep s q old new t q') :
    ∀ ticket ∈ (t.setWorker i new).tickets q', ticket ∈ s.tickets q := by
  have present := List.mem_of_getElem? found
  intro ticket member
  have moved : ticket ∈ new.tickets ∨ ticket ∈ t.channel.held.flatMap Signal.tickets →
      ticket ∈ s.tickets q := by
    intro there
    simp only [tickets, List.mem_append]
    rcases mem_tickets_of_workerStep step there with kept | sent | waits
    · exact .inl (.inr (List.mem_flatMap.mpr ⟨old, present, kept⟩))
    · exact .inr sent
    · exact .inl (.inl (.inr waits))
  simp only [tickets, setWorker, calls_of_workerStep step, workers_of_workerStep step,
    List.mem_append] at member moved ⊢
  rcases member with ((call | waits) | atWorker) | signal
  · exact .inl (.inl (.inl call))
  · exact .inl (.inl (.inr (List.map_subset (·.2) (custody.formed_of_workerStep step).2.2 waits)))
  · obtain ⟨worker, inSet, holds⟩ := List.mem_flatMap.mp atWorker
    rcases List.mem_or_eq_of_mem_set inSet with before | rfl
    · exact .inl (.inr (List.mem_flatMap.mpr ⟨worker, before, holds⟩))
    · exact moved (.inl holds)
  · exact moved (.inr signal)

theorem mem_tickets_of_callStep {old new : Stage} (step : CallStep s q old new t q')
    {ticket : Ticket} (member : ticket ∈ new.tickets ∨ ticket ∈ q'.allWaiting.map (·.2)) :
    ticket ∈ old.tickets ∨ ticket ∈ q.allWaiting.map (·.2) := by
  cases step with
  | push pushed =>
      rcases member with none | waits
      · cases none
      · obtain ⟨entry, inQueue, rfl⟩ := List.mem_map.mp waits
        rcases List.mem_cons.mp ((KeyQueue.allWaiting_push pushed).mem_iff.mp inQueue) with
          rfl | before
        · exact .inl List.mem_cons_self
        · exact .inr (List.mem_map_of_mem before)
  | discard =>
      rw [KeyQueue.allWaiting_discardWaiting] at member
      rcases member with none | none <;> cases none
  | passMark finishing => cases finishing <;> exact member.imp (fun none => by cases none) id
  | allDropped onward =>
      cases onward using onward_cases <;> exact member.imp (fun none => by cases none) id
  | closeQueue finishing =>
      cases policy : s.shutdownPolicy <;> cases finishing <;> rw [policy] at member <;>
        exact member.imp (fun none => by cases none) id
  | _ => exact member.imp (fun holds => by first | exact holds | cases holds) id

theorem tickets_of_callStep {i : Nat} {old new : Stage} (found : s.calls[i]? = some old)
    (step : CallStep s q old new t q') :
    ∀ ticket ∈ (t.setCall i new).tickets q', ticket ∈ s.tickets q := by
  have present := List.mem_of_getElem? found
  have signals : t.channel.held.flatMap Signal.tickets = s.channel.held.flatMap Signal.tickets := by
    cases step with
    | wake => simp [Signal.tickets]
    | _ => rfl
  intro ticket member
  have moved : ticket ∈ new.tickets ∨ ticket ∈ q'.allWaiting.map (·.2) → ticket ∈ s.tickets q := by
    intro there
    simp only [tickets, List.mem_append]
    rcases mem_tickets_of_callStep step there with kept | waits
    · exact .inl (.inl (.inl (List.mem_flatMap.mpr ⟨old, present, kept⟩)))
    · exact .inl (.inl (.inr waits))
  simp only [tickets, setCall, workers_of_callStep step, calls_of_callStep step, signals,
    List.mem_append] at member moved ⊢
  rcases member with ((inCalls | waits) | worker) | signal
  · obtain ⟨stage, inSet, holds⟩ := List.mem_flatMap.mp inCalls
    rcases List.mem_or_eq_of_mem_set inSet with before | rfl
    · exact .inl (.inl (.inl (List.mem_flatMap.mpr ⟨stage, before, holds⟩)))
    · exact moved (.inl holds)
  · exact moved (.inr waits)
  · exact .inl (.inr worker)
  · exact .inr signal

theorem tickets_of_transition (custody : Custody s q) (move : Transition s q m t q') :
    ∀ ticket ∈ t.tickets q', ticket ∈ s.tickets q ∨
      ticket.serial = s.brought ∧ m.jobs = [ticket.job] := by
  intro ticket member
  cases move with
  | worker found step => exact .inl (tickets_of_workerStep custody found step ticket member)
  | call found step => exact .inl (tickets_of_callStep found step ticket member)
  | resolve | elapse | abandon => exact .inl member
  | exit found =>
      refine .inl ?_
      simp only [tickets, List.mem_append, List.mem_flatMap] at member ⊢
      rcases member with ((⟨stage, inCalls, holds⟩ | waits) | worker) | signal
      · exact .inl (.inl (.inl ⟨stage, List.mem_of_mem_eraseIdx inCalls, holds⟩))
      · exact .inl (.inl (.inr waits))
      · exact .inl (.inr worker)
      · exact .inr signal
  | enter request =>
      simp only [tickets, List.flatMap_append, List.flatMap_cons, List.flatMap_nil, List.append_nil,
        List.mem_append] at member ⊢
      rcases member with (((before | first) | waits) | worker) | signal
      · exact .inl (.inl (.inl (.inl before)))
      · cases request with
        | enqueue job =>
            obtain rfl := List.mem_singleton.mp first
            exact .inr ⟨rfl, rfl⟩
        | waitUntilIdle timeout =>
            simp only [firstStage] at first
            split at first <;> cases first
        | _ => cases first
      · exact .inl (.inl (.inl (.inr waits)))
      · exact .inl (.inl (.inr worker))
      · exact .inl (.inr signal)

theorem brought_of_transition (move : Transition s q m t q') :
    t.brought = s.brought + m.jobs.length := by
  cases move with
  | worker _ step => exact (brought_of_workerStep step : _)
  | call _ step => exact (brought_of_callStep step : _)
  | enter request => cases request <;> rfl
  | _ => rfl

theorem Roster.of_transition (roster : Roster jobs s q) (custody : Custody s q)
    (move : Transition s q m t q') : Roster (jobs ++ m.jobs) t q' := by
  constructor
  · rw [brought_of_transition move, roster.brought, List.length_append]
  · intro ticket member
    rcases tickets_of_transition custody move ticket member with before | ⟨last, brings⟩
    · exact numbered_append (roster.numbered ticket before) m.jobs
    · rw [last, roster.brought, brings]
      simp

theorem Roster.of_fresh (config : Config) : Roster [] (fresh config) .empty := by
  refine ⟨rfl, ?_⟩
  intro ticket member
  have idle : (fresh config).workers.flatMap Worker.tickets = [] := by
    rw [List.flatMap_eq_nil_iff]
    intro worker inPool
    rw [List.eq_of_mem_replicate inPool]
    rfl
  rw [tickets, idle] at member
  cases member

end Coordinator

end KeyedJobs
