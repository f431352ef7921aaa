import KeyedJobs.Coordinator.Step
import KeyedJobs.Proofs.KeyQueue.Marks
import KeyedJobs.Proofs.Tally

/-! # What a step can do

The moves of a coordinator whose queue is sound, one constructor for each thing that a worker or a
call can do, with what it does to the shared state. Custody is the invariant that keeps the queue
sound: no key has more jobs in the workers' hands than its line is marked for, so that no worker
ever releases a key that is not active.
-/

namespace KeyedJobs

theorem Channel.send?_of_closed {α : Type} {c : Channel α} {message : α} (closed : c.closed = true) :
    c.send? message = none := by
  simp [send?, closed]

theorem Channel.send?_of_open {α : Type} {c : Channel α} {message : α} (opened : c.closed = false) :
    c.send? message = some ⟨c.held ++ [message], false⟩ := by
  simp [send?, opened]

/-- How many jobs of the key the worker has taken and neither released nor sent on. -/
def Worker.holds (key : String) : Worker → Nat
  | .holding ticket | .driving ticket _ | .resuming ticket _ =>
      if ticket.job.key = key then 1 else 0
  | .releasing done => if done.key = key then 1 else 0
  | _ => 0

/-- How many jobs of the key the signal carries. -/
def Signal.holds (key : String) : Signal → Nat
  | .resume ticket => if ticket.job.key = key then 1 else 0
  | .wake _ => 0

namespace Coordinator

/-- How many jobs of the key are outside the queue and not released: in the hands of a worker from
activation to release or from release to sending on, or on their way in a signal. -/
def holders (s : Coordinator) (key : String) : Nat :=
  tally (Worker.holds key) s.workers + tally (Signal.holds key) s.channel.held

/-- The queue is sound, its jobs are filed under their keys, and no key has more holders than its
line is marked for. While the channel is open it has no fewer. -/
structure Custody (s : Coordinator) (q : KeyQueue Ticket) : Prop where
  sound : s.queue = .sound q
  formed : q.WellFormed
  filed : ∀ entry ∈ q.allWaiting, entry.2.job.key = entry.1
  exclusive : ∀ key, s.holders key ≤ q.mark key
  marked : s.channel.closed = false → ∀ key, q.mark key ≤ s.holders key

/-- A worker goes from one stage to the next. The last two indices are the coordinator after the
step, but for the worker's own stage, and its queue. -/
inductive WorkerStep (s : Coordinator) (q : KeyQueue Ticket) :
    Worker → Worker → Coordinator → KeyQueue Ticket → Prop where
  | takeWake {key rest} (front : s.channel.held = .wake key :: rest) :
      WorkerStep s q .receiving (.activating key)
        { s with channel := ⟨rest, s.channel.closed⟩ } q
  | takeResume {ticket rest} (front : s.channel.held = .resume ticket :: rest) :
      WorkerStep s q .receiving (.holding ticket)
        { s with channel := ⟨rest, s.channel.closed⟩ } q
  | leave (log) (empty : s.channel.held = []) (closed : s.channel.closed = true) :
      WorkerStep s q .receiving .ended { s with log } q
  | activate {key ticket q'} (taken : q.tryActivate key = (some ticket, q')) :
      WorkerStep s q (.activating key) (.holding ticket) { s with queue := .sound q' } q'
  | ignoreWake {key} (idle : q.tryActivate key = (none, q)) :
      WorkerStep s q (.activating key) .receiving s q
  | beginDrive (ticket log) :
      WorkerStep s q (.holding ticket) (.driving ticket (Drive.begin ticket.job)) { s with log } q
  | drive {ticket drive taken} (log) (going : drive.resolution? = none)
      (step : drive.step s.policy s.now s.completions = taken) :
      WorkerStep s q (.driving ticket drive) (.driving ticket taken.drive)
        (note { s with completions := taken.completions, log }
          (taken.made.map (.called ticket.serial ticket.job.key))) q
  | endDrive {worker ticket drive returned ending resolution lines} (log)
      (ended : drive.resolution? = some returned)
      (outcome : afterDrive worker drive.job returned = (ending, resolution, lines)) :
      WorkerStep s q (.driving ticket drive)
        (.releasing ⟨ticket.serial, ticket.job.key, resolution⟩)
        (note { s with log } [.driven ticket.serial ticket.job.key ending]) q
  | handOver {done next q'} (released : q.release done.key = .ok (some next, q')) :
      WorkerStep s q (.releasing done) (.resuming next done) { s with queue := .sound q' } q'
  | closeLine {done q'} (marked : 0 < q.mark done.key)
      (released : q.release done.key = .ok (none, q')) :
      WorkerStep s q (.releasing done) (countingOf done) { s with queue := .sound q' } q'
  | sendOn (next done) (opened : s.channel.closed = false) :
      WorkerStep s q (.resuming next done) (countingOf done)
        { s with channel := ⟨s.channel.held ++ [.resume next], false⟩ } q
  | refuse (next done log) (closed : s.channel.closed = true) :
      WorkerStep s q (.resuming next done)
        (.shedding next Monitor.Change.discarded.adjustments done)
        (note { s with log } [.discarded next.serial next.job.key]) q
  | shed (next adjustment left done) :
      WorkerStep s q (.shedding next (adjustment :: left) done) (.shedding next left done)
        (s.countResolved next.serial adjustment) q
  | drop (next done) : WorkerStep s q (.shedding next [] done) (afterShedding next done) s q
  | count (done adjustment left) :
      WorkerStep s q (.counting done (adjustment :: left)) (.counting done left)
        (s.countResolved done.serial adjustment) q
  | finish (done) : WorkerStep s q (.counting done []) .receiving s q

/-- A call goes from one stage to the next, as a worker does. -/
inductive CallStep (s : Coordinator) (q : KeyQueue Ticket) :
    Stage → Stage → Coordinator → KeyQueue Ticket → Prop where
  | refuseKey {ticket} (empty : ticket.job.key = "") :
      CallStep s q (.checking ticket) (.answered (rejection ticket.job .invalidKey)) s q
  | raise {ticket} (named : ticket.job.key ≠ "") :
      CallStep s q (.checking ticket) (.pushing ticket) (s.adjust .raise) q
  | push {ticket q'} (pushed : q.push ticket.job.key ticket = .ok q') :
      CallStep s q (.pushing ticket) (.admitting ticket.job.key)
        (note { s with queue := .sound q' } [.admitted ticket.serial ticket.job.key]) q'
  | refuse {ticket} (closed : q.closed = true) :
      CallStep s q (.pushing ticket) (.refusing ticket) s q
  | reject (ticket log) :
      CallStep s q (.refusing ticket) (.answered (rejection ticket.job .shutDown))
        { s.adjust .lower with log } q
  | countAdmitted (key) :
      CallStep s q (.admitting key) (.waking key) (s.adjust .admission) q
  | wake (key) (opened : s.channel.closed = false) :
      CallStep s q (.waking key) (.answered .admitted)
        { s with channel := ⟨s.channel.held ++ [.wake key], false⟩ } q
  | wakeNobody (key log) (closed : s.channel.closed = true) :
      CallStep s q (.waking key) (.answered .admitted) { s with log } q
  | mark (finishing) (first : s.shutDown = false) :
      CallStep s q (.marking finishing) (.closing finishing) { s with shutDown := true } q
  | passMark (finishing) (marked : s.shutDown = true) :
      CallStep s q (.marking finishing) (afterShutdown finishing) s q
  | closeQueue (finishing log) :
      CallStep s q (.closing finishing) (afterClosing s.shutdownPolicy finishing)
        { s with queue := .sound q.close, log } q.close
  | discard (finishing log) :
      CallStep s q (.discarding finishing)
        (.dropping (q.allWaiting.map (·.2)) (afterTaking (q.allWaiting.map (·.2)) finishing))
        (note { s with queue := .sound q.discardWaiting.2, log }
          (q.allWaiting.map fun (key, ticket) => .discarded ticket.serial key))
        q.discardWaiting.2
  | discount (ticket rest onward log) :
      CallStep s q (.dropping (ticket :: rest) onward)
        (.discounting ticket Monitor.Change.discarded.adjustments rest onward) { s with log } q
  | count (ticket adjustment left rest onward) :
      CallStep s q (.discounting ticket (adjustment :: left) rest onward)
        (.discounting ticket left rest onward) (s.countResolved ticket.serial adjustment) q
  | nextDropped (ticket rest onward) :
      CallStep s q (.discounting ticket [] rest onward) (.dropping rest onward) s q
  | allDropped (onward) :
      CallStep s q (.dropping [] onward) (afterDropping onward) s q
  | stopIdling (deadline) :
      CallStep s q (.idling deadline) (.answered (.idle s.monitor.isIdle)) s q
  | drained (idle : s.monitor.incomplete = 0) : CallStep s q .draining .hangingUp s q
  | hangUp :
      CallStep s q .hangingUp .gathering { s with channel := ⟨s.channel.held, true⟩ } q
  | gather : CallStep s q .gathering (.joining s.unjoined) { s with unjoined := [] } q
  | join (workers log) : CallStep s q (.joining workers) (.answered .done) { s with log } q

/-- A move of a coordinator, with the queue before and after it. -/
inductive Transition (s : Coordinator) (q : KeyQueue Ticket) :
    Move → Coordinator → KeyQueue Ticket → Prop where
  | worker {i old new t q'} (found : s.workers[i]? = some old) (step : WorkerStep s q old new t q') :
      Transition s q (.worker i) (t.setWorker i new) q'
  | call {i old new t q'} (found : s.calls[i]? = some old) (step : CallStep s q old new t q') :
      Transition s q (.call i) (t.setCall i new) q'
  | enter (request : Request) (owned : s.abandoned = false) :
      Transition s q (.begin request)
        { s with
          calls := s.calls ++ [s.firstStage request]
          brought := s.brought + request.brings } q
  | exit {i answer} (found : s.calls[i]? = some (.answered answer)) :
      Transition s q (.leave i) { s with calls := s.calls.eraseIdx i } q
  | resolve (gate result) :
      Transition s q (.resolve gate result)
        { s with completions := (s.completions.resolve? gate result).getD s.completions } q
  | elapse (now) : Transition s q (.elapse now) { s with now } q
  | abandon (quiet : s.calls = []) (owned : s.abandoned = false) :
      Transition s q .abandon { s with abandoned := true, channel := ⟨s.channel.held, true⟩ } q

theorem onward_cases {motive : Except Panic Bool → Prop} (panics : ∀ panic, motive (.error panic))
    (returns : motive (.ok false)) (drains : motive (.ok true)) : ∀ onward, motive onward
  | .error panic => panics panic
  | .ok false => returns
  | .ok true => drains

theorem firstStage_cases (s : Coordinator) (request : Request) {motive : Stage → Prop}
    (checking : ∀ ticket, motive (.checking ticket))
    (marking : ∀ finishing, motive (.marking finishing))
    (idling : ∀ deadline, motive (.idling deadline))
    (answered : ∀ answer, motive (.answered answer)) : motive (s.firstStage request) := by
  cases request with
  | enqueue job => exact checking _
  | shutdown => exact marking false
  | waitUntilFinished => exact marking true
  | waitUntilIdle timeout =>
      simp only [firstStage]
      split
      · exact idling _
      · exact answered _

variable {s t : Coordinator} {q q' : KeyQueue Ticket}

theorem Custody.mark_pos (custody : Custody s q) {worker : Worker} {key : String}
    (member : worker ∈ s.workers) (holds : 0 < worker.holds key) : 0 < q.mark key := by
  have counted := le_tally (Worker.holds key) member
  have bounded := custody.exclusive key
  unfold holders at bounded
  omega

theorem Custody.workerStep (custody : Custody s q) {i : Nat} {old : Worker}
    (found : s.workers[i]? = some old) (possible : s.canStepWorker old = true) :
    ∃ new t q', WorkerStep s q old new t q' ∧ s.stepWorker i old = t.setWorker i new := by
  have sound := custody.sound
  cases old with
  | receiving =>
      simp only [stepWorker, receive, Channel.receive]
      cases front : s.channel.held with
      | nil =>
          have closed : s.channel.closed = true := by
            simpa [canStepWorker, hasSignal, front] using possible
          simp only [closed, if_true]
          exact ⟨_, _, _, .leave (s.say (some i) _).log front closed, rfl⟩
      | cons signal rest =>
          cases signal with
          | wake key => exact ⟨_, _, _, .takeWake front, rfl⟩
          | resume ticket => exact ⟨_, _, _, .takeResume front, rfl⟩
  | activating key =>
      simp only [stepWorker, activate, SharedQueue.perform, Lock.access, sound, KeyQueue.perform]
      cases taken : q.tryActivate key with
      | mk job q' =>
          cases job with
          | some ticket => exact ⟨_, _, _, .activate taken, rfl⟩
          | none =>
              obtain ⟨rfl, -⟩ := KeyQueue.tryActivate_eq_none taken
              refine ⟨_, _, _, .ignoreWake taken, ?_⟩
              simp only [← sound]
  | holding ticket => exact ⟨_, _, _, .beginDrive ticket (s.say (some i) _).log, rfl⟩
  | driving ticket drive =>
      simp only [stepWorker, driveOn]
      cases ended : drive.resolution? with
      | some returned =>
          have outcome : afterDrive i drive.job returned = (_, _, _) := rfl
          exact ⟨_, _, _, .endDrive (s.say (some i) _).log ended outcome, rfl⟩
      | none => exact ⟨_, _, _, .drive (s.say (some i) _).log ended rfl, rfl⟩
  | releasing done =>
      have holds : 0 < (Worker.releasing done).holds done.key := by simp [Worker.holds]
      have marked := custody.mark_pos (List.mem_of_getElem? found) holds
      obtain ⟨next, q', released⟩ := KeyQueue.release_of_mark marked
      simp only [stepWorker, release, SharedQueue.perform, Lock.access, sound, KeyQueue.perform,
        released, Except.map]
      cases next with
      | some next => exact ⟨_, _, _, .handOver released, rfl⟩
      | none => exact ⟨_, _, _, .closeLine marked released, rfl⟩
  | resuming next done =>
      simp only [stepWorker, resume]
      cases closed : s.channel.closed with
      | true =>
          rw [Channel.send?_of_closed closed]
          exact ⟨_, _, _, .refuse next done (s.say (some i) _).log closed, rfl⟩
      | false =>
          rw [Channel.send?_of_open closed]
          exact ⟨_, _, _, .sendOn next done closed, rfl⟩
  | shedding next left done =>
      cases left with
      | nil => exact ⟨_, _, _, .drop next done, rfl⟩
      | cons adjustment left => exact ⟨_, _, _, .shed next adjustment left done, rfl⟩
  | counting done left =>
      cases left with
      | nil => exact ⟨_, _, _, .finish done, rfl⟩
      | cons adjustment left => exact ⟨_, _, _, .count done adjustment left, rfl⟩
  | ended | crashed => simp [canStepWorker] at possible

theorem Custody.callStep (custody : Custody s q) {i : Nat} {old : Stage}
    (possible : s.canStepCall old = true) :
    ∃ new t q', CallStep s q old new t q' ∧ s.stepCall i old = t.setCall i new := by
  have sound := custody.sound
  cases old with
  | checking ticket =>
      simp only [stepCall]
      by_cases empty : ticket.job.key = ""
      · exact ⟨_, _, _, .refuseKey empty, by rw [if_pos empty]⟩
      · exact ⟨_, _, _, .raise empty, by rw [if_neg empty]⟩
  | pushing ticket =>
      simp only [stepCall, push, SharedQueue.perform, Lock.access, sound, KeyQueue.perform]
      cases pushed : q.push ticket.job.key ticket with
      | ok q' => exact ⟨_, _, _, .push pushed, rfl⟩
      | error back =>
          obtain ⟨closed, rfl⟩ := KeyQueue.push_eq_error pushed
          exact ⟨_, _, _, .refuse closed, by simp only [← sound]⟩
  | refusing ticket => exact ⟨_, _, _, .reject ticket (s.say none _).log, rfl⟩
  | admitting key => exact ⟨_, _, _, .countAdmitted key, rfl⟩
  | waking key =>
      simp only [stepCall, wake]
      cases closed : s.channel.closed with
      | true =>
          have refused : (s.setCall i (.answered .admitted)).channel.send? (.wake key) = none :=
            Channel.send?_of_closed closed
          exact ⟨_, _, _, .wakeNobody key (s.say none _).log closed, by rw [refused]; rfl⟩
      | false =>
          have sent : (s.setCall i (.answered .admitted)).channel.send? (.wake key) =
              some ⟨s.channel.held ++ [.wake key], false⟩ := Channel.send?_of_open closed
          exact ⟨_, _, _, .wake key closed, by rw [sent]; rfl⟩
  | marking finishing =>
      simp only [stepCall]
      cases marked : s.shutDown with
      | true => exact ⟨_, _, _, .passMark finishing marked, rfl⟩
      | false => exact ⟨_, _, _, .mark finishing marked, rfl⟩
  | closing finishing =>
      simp only [stepCall, closeQueue, SharedQueue.perform, Lock.access, sound, KeyQueue.perform]
      exact ⟨_, _, _, .closeQueue finishing (s.say none _).log, rfl⟩
  | discarding finishing =>
      simp only [stepCall, discardWaiting, SharedQueue.perform, Lock.access, sound,
        KeyQueue.perform]
      exact ⟨_, _, _, .discard finishing (s.say none _).log, rfl⟩
  | dropping tickets onward =>
      cases tickets with
      | nil => exact ⟨_, _, _, .allDropped onward, rfl⟩
      | cons ticket rest =>
          exact ⟨_, _, _, .discount ticket rest onward (s.say none _).log, rfl⟩
  | discounting ticket left rest onward =>
      cases left with
      | nil => exact ⟨_, _, _, .nextDropped ticket rest onward, rfl⟩
      | cons adjustment left => exact ⟨_, _, _, .count ticket adjustment left rest onward, rfl⟩
  | idling deadline => exact ⟨_, _, _, .stopIdling deadline, rfl⟩
  | draining =>
      have idle : s.monitor.incomplete = 0 := by
        simpa [canStepCall, Monitor.isIdle] using possible
      exact ⟨_, _, _, .drained idle, rfl⟩
  | hangingUp => exact ⟨_, _, _, .hangUp, rfl⟩
  | gathering => exact ⟨_, _, _, .gather, rfl⟩
  | joining workers => exact ⟨_, _, _, .join workers (s.say none _).log, rfl⟩
  | answered answer => simp [canStepCall] at possible

/-- Every possible move is a transition. -/
theorem Custody.transition (custody : Custody s q) {m : Move} (possible : s.canMove m = true) :
    ∃ q', Transition s q m (s.move m) q' := by
  cases m with
  | begin request =>
      have owned : s.abandoned = false := by simpa [canMove] using possible
      exact ⟨_, .enter request owned⟩
  | call i =>
      simp only [canMove] at possible
      simp only [move]
      cases found : s.calls[i]? with
      | none => simp [found] at possible
      | some old =>
          simp only [found, Option.any_some] at possible
          obtain ⟨new, t, q', step, moved⟩ := custody.callStep (i := i) possible
          exact ⟨q', by simpa only [moved] using Transition.call found step⟩
  | leave i =>
      simp only [canMove] at possible
      cases found : s.calls[i]? with
      | none => simp [found] at possible
      | some old =>
          cases old <;> simp [found] at possible
          exact ⟨_, .exit found⟩
  | worker i =>
      simp only [canMove] at possible
      simp only [move]
      cases found : s.workers[i]? with
      | none => simp [found] at possible
      | some old =>
          simp only [found, Option.any_some] at possible
          obtain ⟨new, t, q', step, moved⟩ := custody.workerStep found possible
          exact ⟨q', by simpa only [moved] using Transition.worker found step⟩
  | resolve gate result => exact ⟨_, .resolve gate result⟩
  | elapse instant => exact ⟨_, .elapse instant⟩
  | abandon =>
      simp only [canMove, Bool.and_eq_true, List.isEmpty_iff, Bool.not_eq_true'] at possible
      exact ⟨_, .abandon possible.1 possible.2⟩

end Coordinator

end KeyedJobs
