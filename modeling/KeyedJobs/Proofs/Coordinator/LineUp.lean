import KeyedJobs.Proofs.Coordinator.Custody
import KeyedJobs.Proofs.KeyQueue.Waiting
import KeyedJobs.Proofs.Turns

/-! # The line-up before one worker

What a single worker is going to drive, in order, when nothing more comes. The signals in the
channel call up lanes of jobs: a wake signal the jobs that wait under its key, unless the key is
active or was called up before, and a job that is resumed itself and those behind it. The lanes take
turns, and no step of the worker changes what comes out.
-/

namespace KeyedJobs

/-- The jobs that wait under the key, in order. -/
def KeyQueue.lane (q : KeyQueue Ticket) (key : String) : List Nat :=
  (q.waitingOn key).map (·.serial)

/-- The jobs that a wake signal for the key calls up. -/
def KeyQueue.idleLane (q : KeyQueue Ticket) (key : String) : List Nat :=
  if q.mark key = 0 then q.lane key else []

/-- What the signal calls up. -/
def Signal.callsUp (q : KeyQueue Ticket) : Signal → String ⊕ List Nat
  | .wake key => .inl key
  | .resume ticket => .inr (ticket.serial :: q.lane ticket.job.key)

/-- The signal that the worker has received and is about to serve. -/
def Worker.front : Worker → List Signal
  | .activating key => [.wake key]
  | .holding ticket => [.resume ticket]
  | _ => []

/-- The job that the worker drives. -/
def Worker.atWork : Worker → List Nat
  | .driving ticket _ => [ticket.serial]
  | _ => []

/-- The jobs that go behind all others once the worker has released its key. -/
def Worker.back (q : KeyQueue Ticket) : Worker → List Nat
  | .driving ticket _ => q.lane ticket.job.key
  | .releasing done => q.lane done.key
  | .resuming next _ => next.serial :: q.lane next.job.key
  | _ => []

/-- The job that has been driven to its end. -/
def Event.drives : Event → List Nat
  | .driven serial _ _ => [serial]
  | _ => []

/-- The lane has more, of which nothing is listed. -/
def Grown (listed : Nat → Bool) (lane lane' : List Nat) : Prop :=
  ∃ extra : List Nat, extra.filter listed = [] ∧ lane' = lane ++ extra

theorem Grown.refl (listed : Nat → Bool) (lane : List Nat) : Grown listed lane lane :=
  ⟨[], rfl, (List.append_nil lane).symm⟩

namespace KeyQueue

variable {q q' : KeyQueue Ticket} {key other : String} {ticket : Ticket}

theorem lane_of_tryActivate (taken : q.tryActivate key = (some ticket, q')) :
    q.idleLane key = ticket.serial :: q'.lane key ∧
      q'.idleLane = Function.update q.idleLane key [] ∧
      ∀ other, other ≠ key → q'.lane other = q.lane other := by
  obtain ⟨here, elsewhere⟩ := waitingOn_tryActivate taken
  have same : ∀ other, other ≠ key → q'.lane other = q.lane other := fun other apart => by
    rw [lane, lane, elsewhere other apart]
  refine ⟨?_, ?_, same⟩
  · rw [idleLane, if_pos (mark_of_tryActivate taken), lane, here, List.map_cons, lane]
  · funext other
    rw [idleLane, mark_tryActivate taken]
    by_cases apart : other = key
    · simp [apart]
    · rw [if_neg apart, Function.update_of_ne apart, same other apart, idleLane]

theorem idleLane_of_tryActivate_none (idle : q.tryActivate key = (none, q)) :
    q.idleLane key = [] := by
  rw [idleLane]
  split
  · rename_i unmarked
    rw [lane, List.map_eq_nil_iff]
    by_contra waits
    rcases mark_or_idles waits with marked | idles
    · omega
    · exact (tryActivate_eq_none idle).2 idles
  · rfl

theorem lane_of_release_some (released : q.release key = .ok (some ticket, q')) :
    q.lane key = ticket.serial :: q'.lane key ∧ q'.idleLane = q.idleLane ∧
      ∀ other, other ≠ key → q'.lane other = q.lane other := by
  obtain ⟨here, elsewhere⟩ := waitingOn_release_some released
  have same : ∀ other, other ≠ key → q'.lane other = q.lane other := fun other apart => by
    rw [lane, lane, elsewhere other apart]
  refine ⟨by rw [lane, here, List.map_cons, lane], ?_, same⟩
  funext other
  rw [idleLane, idleLane, mark_release_some released]
  by_cases apart : other = key
  · obtain ⟨rest, found, -⟩ := release_eq_some released
    have marked : q.mark other = 1 := by
      rw [apart]
      exact mark_of_line? found
    simp [marked]
  · rw [same other apart]

theorem lane_of_release_none (released : q.release key = .ok (none, q')) :
    q.lane key = [] ∧ q'.idleLane = q.idleLane ∧ q'.lane = q.lane := by
  obtain ⟨empty, elsewhere⟩ := waitingOn_release_none released
  have same : q'.lane = q.lane := by
    funext other
    rw [lane, lane, elsewhere other]
  have nothing : q.lane key = [] := by rw [lane, empty, List.map_nil]
  refine ⟨nothing, ?_, same⟩
  funext other
  rw [idleLane, idleLane, mark_release_none released, same]
  by_cases here : other = key
  · simp [here, nothing]
  · rw [if_neg here]

theorem lane_of_push (pushed : q.push key ticket = .ok q') :
    q'.lane other = if other = key then q.lane key ++ [ticket.serial] else q.lane other := by
  rw [lane, waitingOn_push pushed]
  split
  · rw [List.map_append, List.map_singleton, lane]
  · rfl

variable {listed : Nat → Bool}

theorem grown_of_push (pushed : q.push key ticket = .ok q')
    (unlisted : listed ticket.serial = false) (other : String) :
    Grown listed (q.lane other) (q'.lane other) ∧
      Grown listed (q.idleLane other) (q'.idleLane other) := by
  have grown : Grown listed (q.lane other) (q'.lane other) := by
    rw [lane_of_push pushed]
    split
    · rename_i same
      exact ⟨[ticket.serial], by simp [unlisted], by rw [same]⟩
    · exact .refl listed _
  refine ⟨grown, ?_⟩
  rw [idleLane, idleLane, mark_push pushed]
  split
  · exact grown
  · exact .refl listed _

end KeyQueue

theorem padded_lanesOf {q q' : KeyQueue Ticket} {listed : Nat → Bool}
    (grown : ∀ key, Grown listed (q.lane key) (q'.lane key)) (signals : List Signal)
    {idle idle' : String → List Nat} (called : ∀ key, Grown listed (idle key) (idle' key)) :
    Padded listed (lanesOf idle (signals.map (Signal.callsUp q)))
      (lanesOf idle' (signals.map (Signal.callsUp q'))) := by
  induction signals generalizing idle idle' with
  | nil => exact .nil
  | cons signal rest ih =>
      cases signal with
      | wake key =>
          obtain ⟨extra, unlisted, same⟩ := called key
          simp only [List.map_cons, Signal.callsUp, lanesOf]
          rw [same]
          refine .lane _ extra unlisted (ih fun other => ?_)
          by_cases here : other = key
          · rw [here, Function.update_self, Function.update_self]
            exact .refl listed []
          · rw [Function.update_of_ne here, Function.update_of_ne here]
            exact called other
      | resume ticket =>
          obtain ⟨extra, unlisted, same⟩ := grown ticket.job.key
          simp only [List.map_cons, Signal.callsUp, lanesOf]
          rw [same, ← List.cons_append]
          exact .lane _ extra unlisted (ih called)

theorem grown_back {q q' : KeyQueue Ticket} {listed : Nat → Bool}
    (grown : ∀ key, Grown listed (q.lane key) (q'.lane key)) (worker : Worker) :
    Grown listed (worker.back q) (worker.back q') := by
  cases worker with
  | driving ticket drive => exact grown ticket.job.key
  | releasing done => exact grown done.key
  | resuming next done =>
      obtain ⟨extra, unlisted, same⟩ := grown next.job.key
      exact ⟨extra, unlisted, by rw [Worker.back, same, Worker.back, List.cons_append]⟩
  | _ => exact .refl listed []

namespace Coordinator

variable {s t : Coordinator} {q q' : KeyQueue Ticket} {worker : Worker} {listed : Nat → Bool}

/-- The jobs that have been driven to their ends, in order. -/
def driven (s : Coordinator) : List Nat := s.history.toList.flatMap Event.drives

/-- The lanes that wait for the worker. -/
def lanes (s : Coordinator) (q : KeyQueue Ticket) (worker : Worker) : List (List Nat) :=
  lanesOf q.idleLane ((worker.front ++ s.channel.held).map (Signal.callsUp q)) ++ [worker.back q]

/-- What the worker drives, and what it is going to drive after that. -/
def outlook (s : Coordinator) (q : KeyQueue Ticket) (worker : Worker) : List Nat :=
  worker.atWork ++ roundRobin (s.lanes q worker)

theorem driven_note (s : Coordinator) (events : List Event) :
    (s.note events).driven = s.driven ++ events.flatMap Event.drives := by
  simp [driven, note]

theorem driven_called (s : Coordinator) (serial : Nat) (key : String) (made : List JobCall) :
    (s.note (made.map (.called serial key))).driven = s.driven := by
  simp [driven_note, List.flatMap_map, Event.drives]

theorem driven_countResolved (s : Coordinator) (serial : Nat) (adjustment : Monitor.Adjustment) :
    (s.countResolved serial adjustment).driven = s.driven := by
  rw [countResolved, driven_note]
  split <;> simp [Event.drives, driven, adjust]

/-- No job of a key is on its way in a signal if a worker has one whenever the key is active. -/
theorem Custody.apart_of_signal (custody : Custody s q) {key : String} {ticket : Ticket}
    (full : q.mark key ≤ tally (Worker.holds key) s.workers)
    (sent : .resume ticket ∈ s.channel.held) : ticket.job.key ≠ key := by
  intro same
  have carried := le_tally (Signal.holds key) sent
  have bound := custody.exclusive key
  rw [Signal.holds, if_pos same] at carried
  rw [holders] at bound
  omega

theorem callsUp_congr {key : String} {signals : List Signal}
    (apart : ∀ ticket, .resume ticket ∈ signals → ticket.job.key ≠ key)
    (same : ∀ other, other ≠ key → q'.lane other = q.lane other) :
    signals.map (Signal.callsUp q') = signals.map (Signal.callsUp q) := by
  apply List.map_congr_left
  intro signal member
  cases signal with
  | wake key => rfl
  | resume ticket => rw [Signal.callsUp, same _ (apart ticket member), Signal.callsUp]

theorem outlook_of_idle (s : Coordinator) (q : KeyQueue Ticket) (worker : Worker)
    (front : worker.front = []) (atWork : worker.atWork = []) (back : worker.back q = []) :
    s.outlook q worker =
      roundRobin (lanesOf q.idleLane (s.channel.held.map (Signal.callsUp q))) := by
  rw [outlook, lanes, front, atWork, back, roundRobin_append_nil, List.nil_append, List.nil_append]

theorem outlook_eq_nil (waiting : ∀ key, q.lane key = [])
    (unsent : ∀ ticket, .resume ticket ∉ worker.front ++ s.channel.held)
    (atWork : worker.atWork = []) (back : worker.back q = []) : s.outlook q worker = [] := by
  have flat : (s.lanes q worker).flatten = [] := by
    rw [List.flatten_eq_nil_iff]
    intro lane member
    rw [lanes, back, List.mem_append, List.mem_singleton] at member
    rcases member with inLanes | last
    · rcases of_mem_lanesOf inLanes with nothing | ⟨key, rfl⟩ | sent
      · exact nothing
      · rw [KeyQueue.idleLane, waiting, ite_self]
      · obtain ⟨signal, present, carries⟩ := List.mem_map.mp sent
        cases signal with
        | wake key => cases carries
        | resume ticket => exact absurd present (unsent ticket)
    · exact last
  rw [outlook, atWork, List.nil_append]
  exact List.perm_nil.mp (flat ▸ perm_roundRobin _)

theorem outlook_of_workerStep (custody : Custody s q) {old new : Worker}
    (alone : s.workers = [old]) (step : WorkerStep s q old new t q')
    (sends : ∀ next done, old = .resuming next done → s.channel.closed = false) :
    t.driven ++ t.outlook q' new = s.driven ++ s.outlook q old := by
  cases step with
  | takeWake front | takeResume front =>
      simp only [outlook, lanes, front, Worker.front, Worker.atWork, Worker.back, List.nil_append,
        List.cons_append]
      rfl
  | leave => rfl
  | @activate key ticket _ taken =>
      obtain ⟨here, emptied, same⟩ := KeyQueue.lane_of_tryActivate taken
      have full : q.mark key ≤ tally (Worker.holds key) s.workers := by
        rw [KeyQueue.mark_of_tryActivate taken]
        exact Nat.zero_le _
      have kept : s.channel.held.map (Signal.callsUp q') = s.channel.held.map (Signal.callsUp q) :=
        callsUp_congr (fun _ sent => custody.apart_of_signal full sent) same
      simp only [outlook, lanes, Worker.front, Worker.atWork, Worker.back, List.cons_append,
        List.nil_append, List.map_cons, Signal.callsUp, lanesOf, custody.key_of_tryActivate taken,
        kept, here, emptied]
      rfl
  | @ignoreWake key idle =>
      have nothing := KeyQueue.idleLane_of_tryActivate_none idle
      have unchanged : Function.update q.idleLane key [] = q.idleLane := by
        rw [← nothing, Function.update_eq_self]
      simp only [outlook, lanes, Worker.front, Worker.atWork, Worker.back, List.cons_append,
        List.nil_append, List.map_cons, Signal.callsUp, lanesOf, nothing, unchanged,
        roundRobin_nil_cons]
  | beginDrive ticket log =>
      simp only [outlook, lanes, Worker.front, Worker.atWork, Worker.back, List.cons_append,
        List.nil_append, List.map_cons, Signal.callsUp, lanesOf, roundRobin_cons_cons,
        List.append_assoc]
      rw [roundRobin_skip]
      rfl
  | drive log going step =>
      rw [driven_called]
      rfl
  | @endDrive _ ticket _ _ _ _ _ log =>
      rw [driven_note, List.append_assoc]
      rfl
  | @handOver done next _ released =>
      obtain ⟨here, unchanged, same⟩ := KeyQueue.lane_of_release_some released
      have full : q.mark done.key ≤ tally (Worker.holds done.key) s.workers := by
        rw [alone, tally_cons, tally_nil, Worker.holds, if_pos rfl]
        exact q.mark_le_one done.key
      have kept : s.channel.held.map (Signal.callsUp q') = s.channel.held.map (Signal.callsUp q) :=
        callsUp_congr (fun _ sent => custody.apart_of_signal full sent) same
      simp only [outlook, lanes, Worker.front, Worker.atWork, Worker.back, List.nil_append, here,
        unchanged, kept, custody.key_of_release released]
      rfl
  | @closeLine done _ _ released =>
      obtain ⟨nothing, unchanged, same⟩ := KeyQueue.lane_of_release_none released
      have kept : Signal.callsUp q' = Signal.callsUp q := by
        funext signal
        cases signal with
        | wake key => rfl
        | resume ticket => rw [Signal.callsUp, same, Signal.callsUp]
      simp only [outlook, lanes, Worker.front, Worker.atWork, Worker.back, countingOf, nothing,
        unchanged, kept]
      rfl
  | sendOn next done opened =>
      simp only [outlook, lanes, Worker.front, Worker.atWork, Worker.back, countingOf,
        List.nil_append, List.map_append, List.map_singleton, Signal.callsUp, lanesOf_append_inr,
        roundRobin_append_nil]
      rfl
  | refuse next done log closed =>
      rw [sends next done rfl] at closed
      cases closed
  | shed next adjustment left done =>
      rw [driven_countResolved]
      rfl
  | count done adjustment left =>
      rw [driven_countResolved]
      rfl
  | drop next done =>
      have idle : (afterShedding next done).front = [] ∧ (afterShedding next done).atWork = [] ∧
          (afterShedding next done).back q = [] := by
        unfold afterShedding
        split <;> exact ⟨rfl, rfl, rfl⟩
      rw [outlook_of_idle _ _ _ idle.1 idle.2.1 idle.2.2, outlook_of_idle _ _ _ rfl rfl rfl]
  | finish done => rfl

/-- The listed jobs are driven in a fixed order, and none that waits under an idle key is without a
signal that calls it up. -/
structure LinedUp (listed : Nat → Bool) (order : List Nat) (s : Coordinator) (q : KeyQueue Ticket)
    (worker : Worker) : Prop where
  order : (s.driven ++ s.outlook q worker).filter listed = order
  called : ∀ key, (q.idleLane key).filter listed ≠ [] → .wake key ∈ worker.front ++ s.channel.held

variable {order : List Nat}

theorem LinedUp.driven (linedUp : LinedUp listed order s q worker) :
    s.driven.filter listed <+: order := by
  rw [← linedUp.order, List.filter_append]
  exact List.prefix_append _ _

theorem LinedUp.back_of_done (linedUp : LinedUp listed order s q worker)
    (done : s.driven.filter listed = order) : (worker.back q).filter listed = [] := by
  have rest := linedUp.order
  rw [List.filter_append, done, List.append_right_eq_self, outlook, List.filter_append,
    List.append_eq_nil_iff] at rest
  have empty := List.filter_eq_nil_iff.mp rest.2
  rw [List.filter_eq_nil_iff]
  intro n member
  refine empty n ((perm_roundRobin _).mem_iff.mpr ?_)
  exact List.mem_flatten.mpr ⟨_, List.mem_append_right _ List.mem_cons_self, member⟩

theorem called_of_workerStep {old new : Worker} (step : WorkerStep s q old new t q')
    (called : ∀ key, (q.idleLane key).filter listed ≠ [] → .wake key ∈ old.front ++ s.channel.held)
    (key : String) (waits : (q'.idleLane key).filter listed ≠ []) :
    .wake key ∈ new.front ++ t.channel.held := by
  cases step with
  | takeWake front | takeResume front =>
      have there := called key waits
      rw [front] at there
      exact there
  | @activate active ticket _ taken =>
      rw [(KeyQueue.lane_of_tryActivate taken).2.1] at waits
      by_cases same : key = active
      · rw [same, Function.update_self] at waits
        exact absurd rfl waits
      · rw [Function.update_of_ne same] at waits
        have there := called key waits
        simpa [Worker.front, same] using there
  | @ignoreWake active idle =>
      have there := called key waits
      by_cases same : key = active
      · rw [same, KeyQueue.idleLane_of_tryActivate_none idle] at waits
        exact absurd rfl waits
      · simpa [Worker.front, same] using there
  | handOver released =>
      rw [(KeyQueue.lane_of_release_some released).2.1] at waits
      exact called key waits
  | closeLine _ released =>
      rw [(KeyQueue.lane_of_release_none released).2.1] at waits
      exact called key waits
  | sendOn next done opened =>
      have there : .wake key ∈ s.channel.held := called key waits
      exact List.mem_append_right _ (List.mem_append_left _ there)
  | drop next done =>
      have there : .wake key ∈ s.channel.held := called key waits
      exact List.mem_append_right _ there
  | beginDrive ticket log =>
      have there := called key waits
      simpa [Worker.front] using there
  | _ => exact called key waits

/-- A closed channel refuses no listed job if it was not closed before all of them were driven. -/
theorem LinedUp.of_workerStep (linedUp : LinedUp listed order s q worker) (custody : Custody s q)
    (alone : s.workers = [worker]) {new : Worker} (step : WorkerStep s q worker new t q')
    (late : s.channel.closed = true → s.driven.filter listed = order) :
    LinedUp listed order t q' new := by
  refine ⟨?_, called_of_workerStep step linedUp.called⟩
  by_cases refused : (∃ next done, worker = .resuming next done) ∧ s.channel.closed = true
  · obtain ⟨⟨next, done, rfl⟩, closed⟩ := refused
    have rest := linedUp.back_of_done (late closed)
    cases step with
    | sendOn _ _ opened =>
        rw [opened] at closed
        cases closed
    | refuse _ _ log =>
        have same : (note { s with log } [.discarded next.serial next.job.key]).driven =
            s.driven := by
          rw [driven_note]
          exact List.append_nil _
        have padded : Padded listed
            (lanesOf q.idleLane (s.channel.held.map (Signal.callsUp q)) ++ [[]])
            (lanesOf q.idleLane (s.channel.held.map (Signal.callsUp q)) ++
              [(Worker.resuming next done).back q]) :=
          (Padded.refl listed _).append (.lane [] _ rest .nil)
        rw [same, ← linedUp.order, List.filter_append, List.filter_append]
        exact congrArg _ padded.filter_roundRobin.symm
  · rw [outlook_of_workerStep custody alone step, linedUp.order]
    intro next done same
    by_contra closed
    exact refused ⟨⟨next, done, same⟩, by simpa using closed⟩

theorem LinedUp.order_of_padded (linedUp : LinedUp listed order s q worker)
    (driven : t.driven = s.driven) (padded : Padded listed (s.lanes q worker) (t.lanes q' worker)) :
    (t.driven ++ t.outlook q' worker).filter listed = order := by
  rw [driven, ← linedUp.order, outlook, outlook]
  simp only [List.filter_append, padded.filter_roundRobin]

theorem LinedUp.of_push (linedUp : LinedUp listed order s q worker) {key : String} {ticket : Ticket}
    (pushed : q.push key ticket = .ok q') (unlisted : listed ticket.serial = false)
    (channel : t.channel = s.channel) (driven : t.driven = s.driven) :
    LinedUp listed order t q' worker := by
  have grown := KeyQueue.grown_of_push pushed unlisted
  refine ⟨linedUp.order_of_padded driven ?_, fun key waits => ?_⟩
  · obtain ⟨extra, idle, same⟩ := grown_back (fun key => (grown key).1) worker
    rw [lanes, lanes, channel, same]
    exact (padded_lanesOf (fun key => (grown key).1) _ fun key => (grown key).2).append
      (.lane _ extra idle .nil)
  · rw [channel]
    refine linedUp.called key fun nothing => ?_
    obtain ⟨extra, idle, same⟩ := (grown key).2
    rw [same, List.filter_append, nothing, idle] at waits
    exact waits rfl

/-- A further wake signal calls up no listed job. -/
theorem LinedUp.of_wake (linedUp : LinedUp listed order s q worker) {key : String}
    (sent : t.channel.held = s.channel.held ++ [.wake key]) (driven : t.driven = s.driven) :
    LinedUp listed order t q worker := by
  obtain ⟨lane, appended, given⟩ := lanesOf_append_inl q.idleLane
    ((worker.front ++ s.channel.held).map (Signal.callsUp q)) key
  have unlisted : lane.filter listed = [] := by
    rcases given with rfl | ⟨uncalled, rfl⟩
    · rfl
    · by_contra waits
      exact uncalled (List.mem_map.mpr ⟨_, linedUp.called key waits, rfl⟩)
  have later : (worker.front ++ t.channel.held).map (Signal.callsUp q) =
      (worker.front ++ s.channel.held).map (Signal.callsUp q) ++ [.inl key] := by
    rw [sent, ← List.append_assoc, List.map_append]
    rfl
  refine ⟨linedUp.order_of_padded driven ?_, fun other waits => ?_⟩
  · rw [lanes, lanes, later, appended, List.append_assoc]
    exact (Padded.refl listed _).append (.more lane unlisted (.refl listed _))
  · rw [sent, ← List.append_assoc]
    exact List.mem_append_left _ (linedUp.called other waits)

theorem LinedUp.of_callStep (linedUp : LinedUp listed order s q worker) {old new : Stage}
    (step : CallStep s q old new t q')
    (late : ∀ ticket, old = .pushing ticket → listed ticket.serial = false)
    (spares : ∀ finishing, old ≠ .discarding finishing) : LinedUp listed order t q' worker := by
  cases step with
  | @push ticket _ pushed =>
      refine linedUp.of_push pushed (late ticket rfl) rfl ?_
      rw [driven_note]
      exact List.append_nil _
  | wake key opened => exact linedUp.of_wake rfl rfl
  | discard finishing => exact absurd rfl (spares finishing)
  | count ticket adjustment =>
      refine ⟨?_, linedUp.called⟩
      rw [driven_countResolved]
      exact linedUp.order
  | _ => exact ⟨linedUp.order, linedUp.called⟩

end Coordinator

end KeyedJobs
