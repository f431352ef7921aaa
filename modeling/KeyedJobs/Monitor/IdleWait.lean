import KeyedJobs.Monitor.Basic

/-! # Waiting until no job is left

Threads that wait for the gauge to reach zero, with or without a time limit. The gauge is guarded by
a lock, and every step below is one critical section: a change of the counters, which wakes all
sleepers if it leaves the gauge at zero, or a look of a waiting thread at the gauge, after which the
thread has its answer or sleeps. A sleeper looks again once it is woken or its deadline has come,
and may do so at any other time.

A deadline is computed before the first look, and a time limit that leads beyond the clock's range
makes that computation panic.
-/

namespace KeyedJobs

/-- Where a waiting thread stands. -/
inductive Waiting where
  /-- About to look at the gauge. -/
  | looking
  | asleep
  /-- The answer: whether the gauge was found at zero. -/
  | answered (idle : Bool)
  deriving Repr, DecidableEq

structure Waiter where
  deadline : Option Instant
  waiting : Waiting
  deriving Repr, DecidableEq

/-- Computing a deadline beyond the clock's range panics. -/
inductive IdleWaitFault where
  | deadlineOverflow
  deriving Repr, DecidableEq

def IdleWaitFault.text : IdleWaitFault → String
  | .deadlineOverflow => "overflow when adding duration to instant"

/-- The deadline of a wait that begins now. -/
def idleDeadline (now : Instant) (timeout : Option Duration) :
    Except IdleWaitFault (Option Instant) :=
  match timeout with
  | none => .ok none
  | some span =>
      match now.deadline? span with
      | some deadline => .ok (some deadline)
      | none => .error .deadlineOverflow

namespace Waiter

/-- Whether the deadline has come. -/
def isDue (w : Waiter) (now : Instant) : Bool :=
  w.deadline.any (· ≤ now)

/-- A look at the gauge. -/
def look (w : Waiter) (now : Instant) (m : Monitor) : Waiter :=
  if m.isIdle then { w with waiting := .answered true }
  else if w.isDue now then { w with waiting := .answered false }
  else { w with waiting := .asleep }

/-- A sleeper that is woken looks again. -/
def wake (w : Waiter) : Waiter :=
  match w.waiting with
  | .asleep => { w with waiting := .looking }
  | _ => w

def answer? (w : Waiter) : Option Bool :=
  match w.waiting with
  | .answered idle => some idle
  | _ => none

end Waiter

/-- The counters together with the threads that wait on them. -/
structure WatchedMonitor where
  now : Instant
  monitor : Monitor
  waiters : List Waiter
  deriving Repr, DecidableEq

namespace WatchedMonitor

inductive Move where
  | change (change : Monitor.Change)
  /-- A thread starts to wait, with a deadline that the clock can express. -/
  | enter (deadline : Option Instant)
  /-- The thread looks at the gauge. -/
  | look (waiter : Nat)
  /-- A sleeping thread gets up, for its deadline or for no reason. -/
  | rouse (waiter : Nat)
  | elapse (instant : Instant)
  deriving Repr, DecidableEq

/-- A change of the counters. All sleepers wake if it takes a job off the gauge and leaves it at
zero. -/
def change (s : WatchedMonitor) (change : Monitor.Change) : WatchedMonitor :=
  let monitor := s.monitor.apply change
  if change.settles && monitor.isIdle then
    { s with monitor, waiters := s.waiters.map Waiter.wake }
  else { s with monitor }

def move? (s : WatchedMonitor) : Move → Option WatchedMonitor
  | .change c => some (s.change c)
  | .enter deadline => some { s with waiters := s.waiters ++ [⟨deadline, .looking⟩] }
  | .look i =>
      match s.waiters[i]? with
      | some w =>
          if w.waiting = .looking then
            some { s with waiters := s.waiters.set i (w.look s.now s.monitor) }
          else none
      | none => none
  | .rouse i =>
      match s.waiters[i]? with
      | some w =>
          if w.waiting = .asleep then some { s with waiters := s.waiters.set i w.wake } else none
      | none => none
  | .elapse instant => if s.now ≤ instant then some { s with now := instant } else none

/-- Makes moves in order, leaving out those that are not possible. -/
def moves (s : WatchedMonitor) (list : List Move) : WatchedMonitor :=
  list.foldl (fun s m => (s.move? m).getD s) s

/-- The answer of a waiting thread, if it has one. -/
def answer? (s : WatchedMonitor) (waiter : Nat) : Option Bool :=
  s.waiters[waiter]? |>.bind Waiter.answer?

/-- The waiting thread gets up for its deadline, unless that is later than a given instant. -/
def oversleep (s : WatchedMonitor) (deadline : Option Instant) (instant : Option Instant) :
    WatchedMonitor :=
  match deadline with
  | some due => if instant.all (due < ·) then s.moves [.elapse due, .rouse 0, .look 0] else s
  | none => s

/-- Changes are made at their instants while the first thread waits. It looks at the gauge before
time passes. -/
def follow (s : WatchedMonitor) (deadline : Option Instant) :
    List (Instant × Monitor.Change) → WatchedMonitor
  | [] => (s.moves [.look 0]).oversleep deadline none
  | (instant, change) :: rest =>
      let s := if s.now < instant then (s.moves [.look 0]).oversleep deadline (some instant) else s
      (s.moves [.elapse instant, .change change]).follow deadline rest

end WatchedMonitor

/-- One thread waits from now on while others make changes at the given instants. -/
def Monitor.watch (m : Monitor) (now : Instant) (timeout : Option Duration)
    (changes : List (Instant × Monitor.Change)) : Except IdleWaitFault WatchedMonitor :=
  (idleDeadline now timeout).map fun deadline =>
    (WatchedMonitor.moves ⟨now, m, []⟩ [.enter deadline, .look 0]).follow deadline changes

/-- What a thread does while another one waits. -/
inductive HelperStep where
  | change (change : Monitor.Change)
  /-- It waits itself, with a thread of its own that helps, unless that has nothing to do. -/
  | wait (timeout : Option Duration) (help : List HelperStep)

namespace HelperStep

/-- The changes that a helping thread makes, and when, and the instant at which it is done. A thread
that is helped begins its next step when its helper is done, too, and each helper begins after a
delay. Waits that would never end are left out, and so are those without a deadline that the clock
can express. -/
def timeline (delay : Duration) (m : Monitor) (now : Instant) :
    List HelperStep → List (Instant × Monitor.Change) × Instant
  | [] => ([], now)
  | .change first :: rest =>
      let (changes, done) := timeline delay (m.apply first) now rest
      ((now, first) :: changes, done)
  | .wait timeout help :: rest =>
      let (made, helped) :=
        if help.isEmpty then ([], now) else timeline delay m (now.after delay) help
      let ended := match m.watch now timeout made with
        | .ok watched => watched.now
        | .error _ => now
      let after := made.foldl (fun m made => m.apply made.2) m
      let (changes, done) := timeline delay after (max ended helped) rest
      (made ++ changes, done)

end HelperStep

/-- One thread waits while another begins to help after a delay, unless it has nothing to do. The
answer is missing if the wait does not end. The changes are made in any case. -/
def Monitor.waitIdle (m : Monitor) (timeout : Option Duration) (delay : Duration)
    (help : List HelperStep) : Except IdleWaitFault (Option Bool) × Monitor :=
  let start := Instant.start
  let (changes, _) := HelperStep.timeline delay m (start.after delay) help
  match m.watch start timeout changes with
  | .ok watched => (.ok (watched.answer? 0), watched.monitor)
  | .error fault => (.error fault, changes.foldl (fun m made => m.apply made.2) m)

end KeyedJobs
