import KeyedJobs.Coordinator.State

/-! # The steps of a coordinator

The moves by which a coordinator goes from one state to the next. A move is a step of one worker or
of one call, the beginning or the end of a call, a result sent to a completion from outside, time
passing, or the owner letting go. `canMove` says which moves are possible and `move` makes one; any
order of possible moves is a run.
-/

namespace KeyedJobs

namespace Coordinator

inductive Move where
  /-- A thread starts a call. -/
  | begin (request : Request)
  /-- The next step of a call. -/
  | call (index : Nat)
  /-- A thread goes on with the answer to its call. -/
  | leave (index : Nat)
  /-- The next step of a worker. -/
  | worker (index : Nat)
  /-- The result of the completion that is resolved under a name is sent. -/
  | resolve (gate : String) (result : CompletionResult)
  | elapse (instant : Instant)
  /-- The owner lets go of the coordinator, which closes the channel. -/
  | abandon

def setWorker (s : Coordinator) (index : Nat) (worker : Worker) : Coordinator :=
  { s with workers := s.workers.set index worker }

def setCall (s : Coordinator) (index : Nat) (stage : Stage) : Coordinator :=
  { s with calls := s.calls.set index stage }

def adjust (s : Coordinator) (adjustment : Monitor.Adjustment) : Coordinator :=
  { s with monitor := s.monitor.adjust adjustment }

/-- Adds lines to the log. -/
def say (s : Coordinator) (worker : Option Nat) (lines : List LogLine) : Coordinator :=
  { s with log := s.log ++ lines.map (Entry.mk worker) }

/-- Adds events to the history. -/
def note (s : Coordinator) (events : List Event) : Coordinator :=
  { s with history := s.history ++ events }

/-- One adjustment for a resolved job. The job has been counted when it leaves the gauge. -/
def countResolved (s : Coordinator) (serial : Nat) (adjustment : Monitor.Adjustment) :
    Coordinator :=
  (s.adjust adjustment).note (if adjustment = .lower then [.counted serial] else [])

/-- Whether the channel has something for a worker, if only its end. -/
def hasSignal (s : Coordinator) : Bool :=
  !s.channel.held.isEmpty || s.channel.closed

/-- Whether a worker has ended, in whatever way. -/
def hasEnded (s : Coordinator) (index : Nat) : Bool :=
  match s.workers[index]? with
  | some .ended | some (.crashed _) | none => true
  | _ => false

def canStepWorker (s : Coordinator) : Worker → Bool
  | .receiving => s.hasSignal
  | .driving _ drive => drive.resolution?.isSome || drive.canStep s.now s.completions
  | .ended | .crashed _ => false
  | _ => true

def canStepCall (s : Coordinator) : Stage → Bool
  | .idling deadline => s.monitor.isIdle || deadline.any (· ≤ s.now)
  | .draining => s.monitor.isIdle
  | .joining workers => workers.all s.hasEnded
  | .answered _ => false
  | _ => true

def canMove (s : Coordinator) : Move → Bool
  | .begin _ => !s.abandoned
  | .call index => s.calls[index]?.any s.canStepCall
  | .leave index => s.calls[index]?.any fun
    | .answered _ => true
    | _ => false
  | .worker index => s.workers[index]?.any s.canStepWorker
  | .resolve gate _ => (s.completions.senders.lookup gate).isSome
  | .elapse instant => s.now ≤ instant
  | .abandon => s.calls.isEmpty && !s.abandoned

/-- The outcome of a drive for the worker that ran it: dropping the job may panic, and then the job
counts as abandoned without attempts. -/
def afterDrive (worker : Nat) (job : Job) (resolution : Resolution) :
    Except Panic Resolution × Resolution × List LogLine :=
  match job.dropPanic with
  | none => (.ok resolution, resolution, [])
  | some panic =>
      let reason := (CompletionError.ofPanic panic).text
      (.error panic, ⟨job.key, .abandoned, 0, false⟩,
        [.error s!"Worker {worker} abandoned job {job.title}: {reason}"])

/-- A worker receives. -/
def receive (s : Coordinator) (i : Nat) : Coordinator :=
  match s.channel.receive with
  | .message (.wake key) channel => { s with channel }.setWorker i (.activating key)
  | .message (.resume ticket) channel => { s with channel }.setWorker i (.holding ticket)
  | .nothing => s
  | .ended => (s.setWorker i .ended).say (some i) [.debug s!"Job worker {i} ended, channel closed"]

/-- A worker looks for the next job of a key. If a job of the key is running, its release will find
the waiting ones, so the signal is thrown away. -/
def activate (s : Coordinator) (i : Nat) (key : String) : Coordinator :=
  let (reply, queue) := s.queue.perform (.tryActivate key)
  let s := { s with queue }
  match reply with
  | .ok (.handedOut _ (some ticket)) => s.setWorker i (.holding ticket)
  | .ok _ => s.setWorker i .receiving
  | .error _ => s.setWorker i (.crashed none)

/-- A worker takes a step of the drive that it runs, or leaves it if it has ended. -/
def driveOn (s : Coordinator) (i : Nat) (ticket : Ticket) (drive : Drive) : Coordinator :=
  let key := ticket.job.key
  match drive.resolution? with
  | some resolution =>
      let (ending, resolution, lines) := afterDrive i drive.job resolution
      ((s.setWorker i (.releasing ⟨ticket.serial, key, resolution⟩)).say (some i) lines).note
        [.driven ticket.serial key ending]
  | none =>
      let taken := drive.step s.policy s.now s.completions
      let s := { s with completions := taken.completions }
      ((s.setWorker i (.driving ticket taken.drive)).say (some i) taken.log).note
        (taken.made.map (.called ticket.serial key))

/-- The stage of a worker that starts to count the job that it is done with. -/
def countingOf (done : Driven) : Worker :=
  .counting done (Monitor.Change.finished done.resolution).adjustments

/-- A worker releases the key of the job that it is done with. -/
def release (s : Coordinator) (i : Nat) (done : Driven) : Coordinator :=
  let (reply, queue) := s.queue.perform (.release done.key)
  let s := { s with queue }
  match reply with
  | .ok (.handedOut _ (some next)) => s.setWorker i (.resuming next done)
  | .ok _ => s.setWorker i (countingOf done)
  | .error _ => s.setWorker i (.crashed (some done))

/-- A worker sends the next job of a key to the back of the channel, so that other keys get their
turn. A closed channel does not take it. -/
def resume (s : Coordinator) (i : Nat) (next : Ticket) (done : Driven) : Coordinator :=
  match s.channel.send? (.resume next) with
  | some channel => { s with channel }.setWorker i (countingOf done)
  | none =>
      let line := .warn s!"Dropping job {next.job.title}: dispatcher already closed"
      let left := Monitor.Change.discarded.adjustments
      ((s.setWorker i (.shedding next left done)).say (some i) [line]).note
        [.discarded next.serial next.job.key]

/-- The stage of a worker after a job that it could not send on. Dropping the job may panic, and
then the worker goes down. -/
def afterShedding (next : Ticket) (done : Driven) : Worker :=
  if next.job.dropPanic.isSome then .crashed (some done) else countingOf done

/-- One step of a worker. -/
def stepWorker (s : Coordinator) (i : Nat) : Worker → Coordinator
  | .receiving => s.receive i
  | .activating key => s.activate i key
  | .holding ticket =>
      (s.setWorker i (.driving ticket (Drive.begin ticket.job))).say (some i)
        [.debug s!"Worker {i} executing job {ticket.job.title}"]
  | .driving ticket drive => s.driveOn i ticket drive
  | .releasing done => s.release i done
  | .resuming next done => s.resume i next done
  | .shedding next [] done => s.setWorker i (afterShedding next done)
  | .shedding next (adjustment :: left) done =>
      (s.countResolved next.serial adjustment).setWorker i (.shedding next left done)
  | .counting _ [] => s.setWorker i .receiving
  | .counting done (adjustment :: left) =>
      (s.countResolved done.serial adjustment).setWorker i (.counting done left)
  | .ended | .crashed _ => s

/-- The stage after a shutdown. -/
def afterShutdown (finishing : Bool) : Stage :=
  if finishing then .draining else .answered .done

/-- The stage after the queue was closed. -/
def afterClosing (policy : ShutdownPolicy) (finishing : Bool) : Stage :=
  match policy with
  | .drain => afterShutdown finishing
  | .discard => .discarding finishing

/-- How a shutdown goes on when it has counted the jobs that it took out: dropping them may panic.
The process does not survive a second panic among them. -/
def afterTaking (tickets : List Ticket) (finishing : Bool) : Except Panic Bool :=
  match tickets.findSome? (·.job.dropPanic) with
  | none => .ok finishing
  | some panic => .error panic

/-- The stage after the jobs that were taken out have been dropped. -/
def afterDropping : Except Panic Bool → Stage
  | .ok finishing => afterShutdown finishing
  | .error panic => .answered (.panicked panic)

/-- How a call ends that does not admit its job: dropping the job may panic. -/
def rejection (job : Job) (error : EnqueueError) : Answer :=
  match job.dropPanic with
  | none => .rejected error
  | some panic => .panicked panic

/-- A call pushes its job. -/
def push (s : Coordinator) (i : Nat) (ticket : Ticket) : Coordinator :=
  let key := ticket.job.key
  let (reply, queue) := s.queue.perform (.push key ticket)
  let s := { s with queue }
  match reply with
  | .ok (.refused _ ticket) => s.setCall i (.refusing ticket)
  | .ok _ => (s.setCall i (.admitting key)).note [.admitted ticket.serial key]
  | .error fault => s.setCall i (.answered (.crashed fault))

/-- A call wakes a worker for the key of its job. -/
def wake (s : Coordinator) (i : Nat) (key : String) : Coordinator :=
  let s := s.setCall i (.answered .admitted)
  match s.channel.send? (.wake key) with
  | some channel => { s with channel }
  | none => s.say none
      [.warn s!"Job for key {key} admitted, but the dispatcher is already closed"]

/-- A call closes the queue. -/
def closeQueue (s : Coordinator) (i : Nat) (finishing : Bool) : Coordinator :=
  let (reply, queue) := s.queue.perform .close
  let s := { s with queue }
  match reply with
  | .ok _ =>
      (s.setCall i (afterClosing s.shutdownPolicy finishing)).say none
        [.info s!"Job coordinator shutting down ({s.shutdownPolicy.name})"]
  | .error fault => s.setCall i (.answered (.crashed fault))

/-- A call takes the waiting jobs out of the queue. -/
def discardWaiting (s : Coordinator) (i : Nat) (finishing : Bool) : Coordinator :=
  let lines := s.queue.logOf .discardWaiting
  let (reply, queue) := s.queue.perform .discardWaiting
  let s := { s with queue }
  match reply with
  | .ok (.discarded jobs) =>
      let tickets := jobs.map (·.2)
      ((s.setCall i (.dropping tickets (afterTaking tickets finishing))).say none lines).note
        (jobs.map fun (key, ticket) => .discarded ticket.serial key)
  | .ok _ => s.setCall i (.dropping [] (.ok finishing))
  | .error fault => s.setCall i (.answered (.crashed fault))

/-- What a call that finishes logs once the workers have ended. -/
def joinLog (s : Coordinator) (workers : List Nat) : List LogLine :=
  let crashes := workers.filter fun i => s.workers[i]?.any fun
    | .crashed _ => true
    | _ => false
  crashes.map (fun _ => .warn "A job worker terminated with a panic") ++
    [.debug "All job workers stopped", .info "Job coordinator finished"]

/-- One step of a call. -/
def stepCall (s : Coordinator) (i : Nat) : Stage → Coordinator
  | .checking ticket =>
      if ticket.job.key = "" then s.setCall i (.answered (rejection ticket.job .invalidKey))
      else (s.adjust .raise).setCall i (.pushing ticket)
  | .pushing ticket => s.push i ticket
  | .refusing ticket =>
      ((s.adjust .lower).setCall i (.answered (rejection ticket.job .shutDown))).say none
        [.debug s!"Rejected job {ticket.job.title}: shut down"]
  | .admitting key => (s.adjust .admission).setCall i (.waking key)
  | .waking key => s.wake i key
  | .marking finishing =>
      if s.shutDown then s.setCall i (afterShutdown finishing)
      else { s with shutDown := true }.setCall i (.closing finishing)
  | .closing finishing => s.closeQueue i finishing
  | .discarding finishing => s.discardWaiting i finishing
  | .dropping [] onward => s.setCall i (afterDropping onward)
  | .dropping (ticket :: rest) onward =>
      let left := Monitor.Change.discarded.adjustments
      (s.setCall i (.discounting ticket left rest onward)).say none
        [.warn s!"Discarding job {ticket.job.title} on shutdown"]
  | .discounting _ [] rest onward => s.setCall i (.dropping rest onward)
  | .discounting ticket (adjustment :: left) rest onward =>
      (s.countResolved ticket.serial adjustment).setCall i (.discounting ticket left rest onward)
  | .idling _ => s.setCall i (.answered (.idle s.monitor.isIdle))
  | .draining => s.setCall i .hangingUp
  | .hangingUp => { s with channel := s.channel.close }.setCall i .gathering
  | .gathering => { s with unjoined := [] }.setCall i (.joining s.unjoined)
  | .joining workers => (s.setCall i (.answered .done)).say none (s.joinLog workers)
  | .answered _ => s

/-- The first stage of a call. -/
def firstStage (s : Coordinator) : Request → Stage
  | .enqueue job => .checking ⟨s.brought, job⟩
  | .shutdown => .marking false
  | .waitUntilFinished => .marking true
  | .waitUntilIdle timeout =>
      match idleDeadline s.now timeout with
      | .ok deadline => .idling deadline
      | .error fault => .answered (.overflow fault)

/-- Makes a move. A step of a worker or a call that is not there changes nothing. -/
def move (s : Coordinator) : Move → Coordinator
  | .begin request =>
      { s with
        calls := s.calls ++ [s.firstStage request]
        brought := s.brought + request.brings }
  | .call index =>
      match s.calls[index]? with
      | some stage => s.stepCall index stage
      | none => s
  | .leave index => { s with calls := s.calls.eraseIdx index }
  | .worker index =>
      match s.workers[index]? with
      | some worker => s.stepWorker index worker
      | none => s
  | .resolve gate result =>
      { s with completions := (s.completions.resolve? gate result).getD s.completions }
  | .elapse instant => { s with now := instant }
  | .abandon => { s with abandoned := true, channel := s.channel.close }

/-- The states that a coordinator can come to from a given one. -/
inductive Reaches : Coordinator → Coordinator → Prop where
  | refl (s : Coordinator) : Reaches s s
  | step {s t : Coordinator} (m : Move) :
      Reaches s t → t.canMove m = true → Reaches s (t.move m)

end Coordinator

end KeyedJobs
