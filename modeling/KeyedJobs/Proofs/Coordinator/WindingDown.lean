import KeyedJobs.Proofs.Coordinator.Exclusion
import KeyedJobs.Proofs.Coordinator.Shutdown

/-! # Winding down

When no further calls are made, what is left to do shrinks with every step but those of a drive. So
the threads that are under way can bring the gauge to zero, unless some drive never ends.
-/

namespace KeyedJobs

/-- More than what is left to do for the worker after each of its steps. -/
def Worker.effort : Worker → Nat
  | .ended | .crashed _ => 0
  | .receiving => 1
  | .activating _ => 2
  | .holding _ => 9
  | .driving _ _ => 8
  | .releasing _ => 7
  | .resuming _ _ => 16
  | .shedding _ left _ => left.length + 7
  | .counting _ left => left.length + 2

def Signal.effort : Signal → Nat
  | .wake _ => 2
  | .resume _ => 9

def Stage.effort : Stage → Nat
  | .checking _ => 17
  | .pushing _ => 16
  | .refusing _ => 1
  | .admitting _ => 4
  | .waking _ => 3
  | .marking _ => 8
  | .closing _ => 7
  | .discarding _ => 6
  | .dropping tickets _ => 5 * tickets.length + 5
  | .discounting _ left rest _ => left.length + 5 * rest.length + 6
  | .idling _ => 1
  | .draining => 4
  | .hangingUp => 3
  | .gathering => 2
  | .joining _ => 1
  | .answered _ => 0

namespace Coordinator

variable {config : Config} {s t : Coordinator} {q q' : KeyQueue Ticket} {m : Move}

/-- The effort for the jobs in the queue and in the channel. -/
def backlog (s : Coordinator) (q : KeyQueue Ticket) : Nat :=
  10 * q.allWaiting.length + tally Signal.effort s.channel.held

def effort (s : Coordinator) (q : KeyQueue Ticket) : Nat :=
  s.backlog q + tally Worker.effort s.workers + tally Stage.effort s.calls

theorem effort_countingOf (done : Driven) : (countingOf done).effort ≤ 6 := by
  simp only [countingOf, Worker.effort, Monitor.Change.adjustments]
  split <;> simp

theorem effort_afterShedding (next : Ticket) (done : Driven) :
    (afterShedding next done).effort ≤ 6 := by
  unfold afterShedding
  split
  · exact Nat.zero_le _
  · exact effort_countingOf done

theorem effort_of_workerStep (custody : Custody s q) {old new : Worker}
    (step : WorkerStep s q old new t q') :
    t.backlog q' + new.effort < s.backlog q + old.effort ∨
      ∃ ticket drive drive', old = .driving ticket drive ∧ new = .driving ticket drive' ∧
        t.backlog q' = s.backlog q := by
  cases step with
  | drive => exact .inr ⟨_, _, _, rfl, rfl, rfl⟩
  | takeWake front | takeResume front =>
      refine .inl ?_
      simp only [backlog, front, tally_cons, Signal.effort, Worker.effort]
      omega
  | activate taken =>
      refine .inl ?_
      have length := (KeyQueue.allWaiting_tryActivate taken).length_eq
      simp only [backlog, Worker.effort, length, List.length_cons]
      omega
  | handOver released =>
      refine .inl ?_
      have length := (KeyQueue.allWaiting_release_some released).length_eq
      simp only [backlog, Worker.effort, length, List.length_cons]
      omega
  | @closeLine done _ _ released =>
      refine .inl ?_
      have bound := effort_countingOf done
      simp only [backlog, custody.formed.allWaiting_release_none released]
      change _ + (countingOf done).effort < _ + 7
      omega
  | sendOn next done =>
      refine .inl ?_
      have bound := effort_countingOf done
      simp only [backlog, tally_append, tally_cons, tally_nil, Signal.effort]
      change _ + (countingOf done).effort < _ + 16
      omega
  | refuse next done =>
      refine .inl ?_
      change s.backlog q + 10 < s.backlog q + 16
      omega
  | shed next adjustment left done =>
      refine .inl ?_
      change s.backlog q + (left.length + 7) < s.backlog q + (left.length + 1 + 7)
      omega
  | drop next done =>
      refine .inl ?_
      have bound := effort_afterShedding next done
      change s.backlog q + (afterShedding next done).effort < s.backlog q + 7
      omega
  | count done adjustment left =>
      refine .inl ?_
      change s.backlog q + (left.length + 2) < s.backlog q + (left.length + 1 + 2)
      omega
  | leave | ignoreWake | beginDrive | endDrive | finish =>
      exact .inl (Nat.add_lt_add_left (by simp [Worker.effort]) (s.backlog q))

theorem effort_of_callStep {old new : Stage} (step : CallStep s q old new t q') :
    t.backlog q' + new.effort < s.backlog q + old.effort := by
  cases step with
  | push pushed =>
      have length := (KeyQueue.allWaiting_push pushed).length_eq
      simp only [backlog, Stage.effort, note, length, List.length_cons]
      omega
  | wake key opened =>
      simp only [backlog, tally_append, tally_cons, tally_nil, Signal.effort, Stage.effort]
      omega
  | discard finishing log =>
      simp only [backlog, Stage.effort, note, KeyQueue.allWaiting_discardWaiting, List.length_nil,
        List.length_map]
      omega
  | discount ticket rest finishing log =>
      change s.backlog q + (3 + 5 * rest.length + 6) < s.backlog q + (5 * (rest.length + 1) + 5)
      omega
  | count ticket adjustment left rest finishing =>
      change s.backlog q + (left.length + 5 * rest.length + 6) <
        s.backlog q + (left.length + 1 + 5 * rest.length + 6)
      omega
  | nextDropped ticket rest finishing =>
      change s.backlog q + (5 * rest.length + 5) < s.backlog q + (0 + 5 * rest.length + 6)
      omega
  | passMark finishing =>
      cases finishing <;> exact Nat.add_lt_add_left (by decide) (s.backlog q)
  | allDropped onward =>
      refine Nat.add_lt_add_left ?_ (s.backlog q)
      cases onward using onward_cases <;> simp [afterDropping, afterShutdown, Stage.effort]
  | closeQueue finishing =>
      cases s.shutdownPolicy <;> cases finishing <;>
        exact Nat.add_lt_add_left (by decide) (s.backlog q)
  | _ => exact Nat.add_lt_add_left (by simp [Stage.effort]) (s.backlog q)

/-- Whether the move goes on with what is under way: it is neither the beginning of a call nor its
end, and the owner does not let go. -/
def Move.goesOn : Move → Bool
  | .call _ | .worker _ | .resolve _ _ | .elapse _ => true
  | .begin _ | .leave _ | .abandon => false

/-- The states that the threads under way can bring about. -/
inductive Settles (s : Coordinator) : Coordinator → Prop where
  | refl : Settles s s
  | step {t : Coordinator} (m : Move) (settles : Settles s t) (possible : t.canMove m = true)
      (goesOn : m.goesOn = true) : Settles s (t.move m)

theorem Settles.trans {u : Coordinator} (first : Settles s t) (second : Settles t u) :
    Settles s u := by
  induction second with
  | refl => exact first
  | step m _ possible goesOn ih => exact ih.step m possible goesOn

def Drives (s : Coordinator) (i : Nat) (ticket : Ticket) : Prop :=
  ∃ drive, s.workers[i]? = some (.driving ticket drive)

/-- The worker drives the job and never ends it, whatever the threads under way do, whatever results
are sent and however much time passes. -/
def Endless (s : Coordinator) (i : Nat) (ticket : Ticket) : Prop :=
  ∀ t, Settles s t → t.Drives i ticket

theorem effort_setWorker {i : Nat} {old new : Worker} (found : s.workers[i]? = some old)
    (step : WorkerStep s q old new t q') :
    (t.setWorker i new).effort q' + old.effort + s.backlog q =
      s.effort q + new.effort + t.backlog q' := by
  have set := tally_set Worker.effort found new
  simp only [effort, setWorker, workers_of_workerStep step, calls_of_workerStep step]
  simp only [backlog]
  omega

theorem effort_setCall {i : Nat} {old new : Stage} (found : s.calls[i]? = some old)
    (step : CallStep s q old new t q') :
    (t.setCall i new).effort q' + old.effort + s.backlog q =
      s.effort q + new.effort + t.backlog q' := by
  have set := tally_set Stage.effort found new
  simp only [effort, setCall, workers_of_callStep step, calls_of_callStep step]
  simp only [backlog]
  omega

theorem effort_of_transition (custody : Custody s q) (move : Transition s q m t q')
    (goesOn : m.goesOn = true) :
    t.effort q' < s.effort q ∨
      t.effort q' = s.effort q ∧ ∀ i ticket, s.Drives i ticket → t.Drives i ticket := by
  cases move with
  | @worker i old new t q' found step =>
      have moved := effort_setWorker found step
      rcases effort_of_workerStep custody step with less | ⟨ticket, drive, drive', rfl, rfl, same⟩
      · exact .inl (by omega)
      · refine .inr ⟨by simp only [Worker.effort] at moved; omega, ?_⟩
        intro j other drives
        rw [Drives, setWorker, workers_of_workerStep step, List.getElem?_set]
        by_cases here : i = j
        · subst here
          obtain ⟨_, driven⟩ := drives
          rw [found] at driven
          obtain ⟨rfl, -⟩ := Worker.driving.inj (Option.some.inj driven)
          have inside := (List.getElem?_eq_some_iff.mp found).1
          exact ⟨drive', by simp [inside]⟩
        · rw [if_neg here]
          exact drives
  | call found step =>
      have moved := effort_setCall found step
      have less := effort_of_callStep step
      exact .inl (by omega)
  | resolve | elapse => exact .inr ⟨rfl, fun _ _ drives => drives⟩
  | enter | exit | abandon => cases goesOn

theorem effort_of_call {i : Nat} (move : Transition s q (.call i) t q') :
    t.effort q' < s.effort q := by
  cases move with
  | call found step =>
      have moved := effort_setCall found step
      have less := effort_of_callStep step
      omega

theorem effort_of_worker (custody : Custody s q) {i : Nat} {worker : Worker}
    (found : s.workers[i]? = some worker) (other : worker.drives = false)
    (move : Transition s q (.worker i) t q') : t.effort q' < s.effort q := by
  cases move with
  | worker found' step =>
      obtain rfl := Option.some.inj (found.symm.trans found')
      have moved := effort_setWorker found step
      rcases effort_of_workerStep custody step with less | ⟨ticket, drive, drive', rfl, -⟩
      · omega
      · cases other

/-- A call or a worker can take a step that is not one of a drive, or a worker drives a job. -/
inductive Busy (s : Coordinator) : Prop where
  | call {i : Nat} {stage : Stage} (found : s.calls[i]? = some stage)
      (possible : s.canStepCall stage = true)
  | worker {i : Nat} {worker : Worker} (found : s.workers[i]? = some worker)
      (possible : s.canStepWorker worker = true) (other : worker.drives = false)
  | drive {i : Nat} {ticket : Ticket} (drives : s.Drives i ticket)

theorem Busy.of_call {stage : Stage} (member : stage ∈ s.calls)
    (possible : s.canStepCall stage = true) : s.Busy := by
  obtain ⟨i, found⟩ := List.mem_iff_getElem?.mp member
  exact .call found possible

theorem Busy.of_worker {worker : Worker} (member : worker ∈ s.workers) (works : worker.works = true)
    (busy : worker ≠ .receiving) : s.Busy := by
  obtain ⟨i, found⟩ := List.mem_iff_getElem?.mp member
  cases worker with
  | receiving => exact absurd rfl busy
  | driving ticket drive => exact .drive ⟨drive, found⟩
  | shedding | ended | crashed => cases works
  | activating | holding | releasing | resuming | counting => exact .worker found rfl rfl

theorem Busy.of_signal (sent : s.channel.held ≠ []) (staffed : 0 < s.workers.length)
    (waiting : ∀ worker ∈ s.workers, worker = .receiving) : s.Busy := by
  have found := List.getElem?_eq_getElem staffed
  rw [waiting _ (List.getElem_mem staffed)] at found
  have possible : s.canStepWorker .receiving = true := by
    simp [canStepWorker, hasSignal, sent]
  exact .worker found possible rfl

theorem Busy.of_offer (offers : s.offered ≠ []) : s.Busy := by
  obtain ⟨n, offered⟩ := List.exists_mem_of_ne_nil _ offers
  obtain ⟨stage, member, brings⟩ := List.mem_flatMap.mp offered
  cases stage with
  | pushing | refusing => exact .of_call member rfl
  | _ => cases brings

theorem Busy.of_dropped (drops : s.dropped ≠ []) : s.Busy := by
  obtain ⟨n, dropped⟩ := List.exists_mem_of_ne_nil _ drops
  obtain ⟨stage, member, brings⟩ := List.mem_flatMap.mp dropped
  cases stage with
  | dropping | discounting => exact .of_call member rfl
  | _ => cases brings

/-- While all workers wait for a signal and none comes, only a call can have a job. -/
theorem Sound.busy_of_waiting (sound : Sound s q) (opened : s.channel.closed = false)
    (waiting : ∀ worker ∈ s.workers, worker = .receiving) (unsent : s.channel.held = [])
    (jobs : s.placed q ≠ []) : s.Busy := by
  have untaken : s.taken = [] :=
    List.flatMap_eq_nil_iff.mpr fun worker member => by rw [waiting worker member]; rfl
  have unresumed : s.resumed = [] := by rw [resumed, unsent]; rfl
  by_cases drops : s.dropped = []
  · have queued : q.serials ≠ [] := fun empty => by
      simp [Coordinator.placed, empty, untaken, unresumed, drops] at jobs
    by_cases idles : ∃ key, q.Idles key
    · obtain ⟨key, idle⟩ := idles
      rcases called_of_wakes (sound.awake opened key idle) with sent | received | pushed | pushed
      · rw [unsent] at sent
        cases sent
      · cases waiting _ received
      · exact .of_call pushed rfl
      · exact .of_call pushed rfl
    · have unmarked : ∀ key, q.mark key = 0 := fun key => by
        have unheld : tally (Worker.holds key) s.workers = 0 :=
          tally_eq_zero.mpr fun worker member => by rw [waiting worker member]; rfl
        have marked := sound.custody.marked opened key
        rw [holders, unheld, unsent, tally_nil] at marked
        omega
      have lines : q.lines = [] :=
        sound.custody.formed.lines_eq_nil unmarked fun key idle => idles ⟨key, idle⟩
      rw [KeyQueue.serials, KeyQueue.allWaiting, lines] at queued
      exact absurd rfl queued
  · exact .of_dropped drops

theorem Sound.busy (sound : Sound s q) (shut : Sealed s q) (owned : s.abandoned = false)
    (staffed : 0 < s.workers.length) (raised : s.monitor.incomplete ≠ 0) : s.Busy := by
  have shown := sound.ledger.incomplete sound.placed
  by_cases offers : s.offered = []
  · have jobs : s.placed q ≠ [] := fun empty => by
      rw [offers, empty] at shown
      exact raised shown
    have opened : s.channel.closed = false := by
      cases closed : s.channel.closed with
      | false => rfl
      | true =>
          rcases shut.closed closed with abandoned | finished
          · rw [owned] at abandoned
            cases abandoned
          · exact absurd finished.empty jobs
    by_cases waiting : ∀ worker ∈ s.workers, worker = .receiving
    · by_cases unsent : s.channel.held = []
      · exact sound.busy_of_waiting opened waiting unsent jobs
      · exact .of_signal unsent staffed waiting
    · obtain ⟨worker, member, busy⟩ : ∃ worker ∈ s.workers, worker ≠ .receiving := by
        simpa using waiting
      exact .of_worker member (sound.guarded.working opened worker member) busy
  · exact .of_offer offers

/-- What winding down starts from and keeps, as long as the gauge is above zero. -/
structure Underway (s : Coordinator) (q : KeyQueue Ticket) : Prop where
  sound : Sound s q
  shut : Sealed s q
  owned : s.abandoned = false
  staffed : 0 < s.workers.length

theorem abandoned_of_transition (move : Transition s q m t q') (goesOn : m.goesOn = true) :
    t.abandoned = s.abandoned := by
  cases move with
  | worker found step => exact (abandoned_of_workerStep step : _)
  | call found step => exact (abandoned_of_callStep step : _)
  | resolve | elapse => rfl
  | enter | exit | abandon => cases goesOn

theorem length_workers_of_transition (move : Transition s q m t q') :
    t.workers.length = s.workers.length := by
  cases move with
  | worker found step => rw [setWorker, List.length_set, workers_of_workerStep step]
  | call found step => rw [setCall, workers_of_callStep step]
  | _ => rfl

theorem Underway.move (underway : Underway s q) (possible : s.canMove m = true)
    (goesOn : m.goesOn = true) (raised : s.monitor.incomplete ≠ 0) :
    ∃ q', Transition s q m (s.move m) q' ∧ Underway (s.move m) q' := by
  obtain ⟨q', move, after⟩ := underway.sound.move possible
  have heedful : Heedful s q m := fun _ _ _ idle => absurd idle raised
  have shut := underway.shut.of_transition heedful underway.sound.ledger underway.sound.placed
    after.placed move
  refine ⟨q', move, after, shut, ?_, ?_⟩
  · rw [abandoned_of_transition move goesOn, underway.owned]
  · rw [length_workers_of_transition move]
    exact underway.staffed

/-- However the threads go on, the gauge reaches zero or no more is left to do than before. A worker
that drove a job still does so, or less is left. -/
theorem Underway.settles (underway : Underway s q) (settles : Settles s t) :
    (∃ u, Settles s u ∧ u.monitor.incomplete = 0) ∨ ∃ q', Underway t q' ∧
      (t.effort q' < s.effort q ∨
        t.effort q' = s.effort q ∧ ∀ i ticket, s.Drives i ticket → t.Drives i ticket) := by
  induction settles with
  | refl => exact .inr ⟨q, underway, .inr ⟨rfl, fun _ _ drives => drives⟩⟩
  | @step t m settles possible goesOn ih =>
      rcases ih with idle | ⟨q₁, going, left⟩
      · exact .inl idle
      · by_cases raised : t.monitor.incomplete = 0
        · exact .inl ⟨t, settles, raised⟩
        · obtain ⟨q', move, after⟩ := going.move possible goesOn raised
          refine .inr ⟨q', after, ?_⟩
          rcases left with less | ⟨same, kept⟩
          · rcases effort_of_transition going.sound.custody move goesOn with less' | ⟨same', -⟩
            · exact .inl (Nat.lt_trans less' less)
            · exact .inl (by omega)
          · rcases effort_of_transition going.sound.custody move goesOn with less' | ⟨same', kept'⟩
            · exact .inl (by omega)
            · exact .inr ⟨same'.trans same, fun i ticket drives =>
                kept' i ticket (kept i ticket drives)⟩

theorem Underway.less (underway : Underway s q) (raised : s.monitor.incomplete ≠ 0) :
    (∃ i ticket, s.Endless i ticket) ∨ (∃ t, Settles s t ∧ t.monitor.incomplete = 0) ∨
      ∃ t q', Settles s t ∧ Underway t q' ∧ t.effort q' < s.effort q := by
  have busy := underway.sound.busy underway.shut underway.owned underway.staffed raised
  cases busy with
  | @call i stage found possible =>
      have moves : s.canMove (.call i) = true := by simp [canMove, found, possible]
      obtain ⟨q', move, going⟩ := underway.move moves rfl raised
      exact .inr (.inr ⟨_, q', .step _ .refl moves rfl, going, effort_of_call move⟩)
  | @worker i worker found possible other =>
      have moves : s.canMove (.worker i) = true := by simp [canMove, found, possible]
      obtain ⟨q', move, going⟩ := underway.move moves rfl raised
      have less := effort_of_worker underway.sound.custody found other move
      exact .inr (.inr ⟨_, q', .step _ .refl moves rfl, going, less⟩)
  | @drive i ticket drives =>
      by_cases endless : s.Endless i ticket
      · exact .inl ⟨i, ticket, endless⟩
      · obtain ⟨t, settles, ended⟩ : ∃ t, Settles s t ∧ ¬ t.Drives i ticket := by
          simpa [Endless] using endless
        refine .inr ?_
        rcases underway.settles settles with idle | ⟨q', going, less | ⟨-, kept⟩⟩
        · exact .inl idle
        · exact .inr ⟨t, q', settles, going, less⟩
        · exact absurd (kept i ticket drives) ended

/-- The threads under way can bring the gauge to zero, or to where some drive never ends. -/
theorem Underway.winds_down (underway : Underway s q) :
    ∃ t, Settles s t ∧ (t.monitor.incomplete = 0 ∨ ∃ i ticket, t.Endless i ticket) := by
  induction effort : s.effort q using Nat.strongRecOn generalizing s q with
  | ind left ih =>
      by_cases raised : s.monitor.incomplete = 0
      · exact ⟨s, .refl, .inl raised⟩
      · rcases underway.less raised with endless | ⟨t, settles, idle⟩ | ⟨t, q', settles, going, less⟩
        · exact ⟨s, .refl, .inr endless⟩
        · exact ⟨t, settles, .inl idle⟩
        · obtain ⟨u, settles', done⟩ := ih _ (effort ▸ less) going rfl
          exact ⟨u, settles.trans settles', done⟩

end Coordinator

end KeyedJobs
