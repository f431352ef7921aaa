import Mathlib.Data.List.Induction
import KeyedJobs.Monitor.IdleWait
import KeyedJobs.Proofs.Tally

/-! # No waiting thread is forgotten

Threads that change the counters and threads that wait for the gauge to reach zero, in any order of
their steps. A waiting thread has its answer from one look at the gauge. Whenever the gauge is at
zero nobody sleeps: the change that brought it there has woken all sleepers, and whoever has looked
since then has its answer.
-/

namespace KeyedJobs

theorem Monitor.isIdle_of_apply {m : Monitor} {change : Monitor.Change}
    (unsettled : change.settles = false) (idle : (m.apply change).isIdle = true) :
    m.isIdle = true := by
  cases change with
  | admitting => simp [apply, Change.adjustments, adjust, isIdle] at idle
  | admitted => exact idle
  | rejected | finished | discarded => cases unsettled

namespace Waiter

variable {w : Waiter} {now : Instant} {m : Monitor}

theorem awake_wake (w : Waiter) : w.wake.waiting ≠ .asleep := by
  unfold wake
  split <;> simp_all

theorem deadline_wake (w : Waiter) : w.wake.deadline = w.deadline := by
  unfold wake
  split <;> rfl

theorem deadline_look (w : Waiter) (now : Instant) (m : Monitor) :
    (w.look now m).deadline = w.deadline := by
  unfold look
  split
  · rfl
  · split <;> rfl

theorem eq_of_answered_wake {idle : Bool} (answered : w.wake.answer? = some idle) : w.wake = w := by
  unfold wake at answered ⊢
  split
  · rename_i asleep
    simp [asleep, answer?] at answered
  · rfl

end Waiter

namespace WatchedMonitor

variable {s t : WatchedMonitor} {m : Move} {i : Nat} {w : Waiter} {idle : Bool}

/-- The deadline of the wait that the move begins. -/
def Move.entering? : Move → Option (Option Instant)
  | .enter deadline => some deadline
  | _ => none

/-- What a look has found that gave this answer to a thread with the deadline. -/
inductive Finds (s : WatchedMonitor) (deadline : Option Instant) : Bool → Prop where
  | idle (zero : s.monitor.incomplete = 0) : Finds s deadline true
  | late {due : Instant} (busy : 0 < s.monitor.incomplete) (limited : deadline = some due)
      (past : due ≤ s.now) : Finds s deadline false

/-- Nobody sleeps while the gauge is at zero. -/
def Alert (s : WatchedMonitor) : Prop :=
  s.monitor.isIdle = true → ∀ w ∈ s.waiters, w.waiting ≠ .asleep

/-- The step that a move makes. -/
inductive Step (s : WatchedMonitor) : Move → WatchedMonitor → Prop where
  | notify {change} (settles : change.settles = true)
      (idle : (s.monitor.apply change).isIdle = true) :
      Step s (.change change)
        { s with monitor := s.monitor.apply change, waiters := s.waiters.map Waiter.wake }
  | change {change}
      (quiet : change.settles = false ∨ (s.monitor.apply change).isIdle = false) :
      Step s (.change change) { s with monitor := s.monitor.apply change }
  | enter (deadline) : Step s (.enter deadline) { s with waiters := s.waiters ++ [⟨deadline, .looking⟩] }
  | look {i deadline} (found : s.waiters[i]? = some ⟨deadline, .looking⟩) :
      Step s (.look i)
        { s with waiters := s.waiters.set i (Waiter.look ⟨deadline, .looking⟩ s.now s.monitor) }
  | rouse {i deadline} (found : s.waiters[i]? = some ⟨deadline, .asleep⟩) :
      Step s (.rouse i) { s with waiters := s.waiters.set i ⟨deadline, .looking⟩ }
  | elapse {instant} (later : s.now ≤ instant) : Step s (.elapse instant) { s with now := instant }

theorem step_of_move? (moved : s.move? m = some t) : Step s m t := by
  cases m with
  | change c =>
      obtain rfl := Option.some.inj moved
      unfold WatchedMonitor.change
      dsimp only
      split
      · rename_i both
        rw [Bool.and_eq_true] at both
        exact .notify both.1 both.2
      · rename_i either
        exact .change (by simpa [Classical.or_iff_not_imp_left] using either)
  | enter deadline =>
      obtain rfl := Option.some.inj moved
      exact .enter deadline
  | look i =>
      simp only [move?] at moved
      split at moved
      · rename_i w found
        obtain ⟨deadline, waiting⟩ := w
        split at moved
        · rename_i looking
          obtain rfl : waiting = .looking := looking
          obtain rfl := Option.some.inj moved
          exact .look found
        · cases moved
      · cases moved
  | rouse i =>
      simp only [move?] at moved
      split at moved
      · rename_i w found
        obtain ⟨deadline, waiting⟩ := w
        split at moved
        · rename_i asleep
          obtain rfl : waiting = .asleep := asleep
          obtain rfl := Option.some.inj moved
          exact .rouse found
        · cases moved
      · cases moved
  | elapse instant =>
      simp only [move?] at moved
      split at moved
      · rename_i later
        obtain rfl := Option.some.inj moved
        exact .elapse later
      · cases moved

theorem awake_look {deadline : Option Instant} (idle : s.monitor.isIdle = true) :
    (Waiter.look ⟨deadline, .looking⟩ s.now s.monitor).waiting ≠ .asleep := by
  simp [Waiter.look, idle]

theorem Alert.of_step (alert : s.Alert) (step : Step s m t) : t.Alert := by
  intro idle
  cases step with
  | notify settles =>
      intro w member
      obtain ⟨old, -, rfl⟩ := List.mem_map.mp member
      exact old.awake_wake
  | change quiet =>
      rcases quiet with unsettled | busy
      · exact alert (Monitor.isIdle_of_apply unsettled idle)
      · rw [busy] at idle
        cases idle
  | enter deadline =>
      intro w member
      rcases List.mem_append.mp member with before | now
      · exact alert idle w before
      · cases List.mem_singleton.mp now
        simp
  | look found =>
      intro w member
      rcases List.mem_or_eq_of_mem_set member with before | rfl
      · exact alert idle w before
      · exact awake_look idle
  | rouse found =>
      intro w member
      rcases List.mem_or_eq_of_mem_set member with before | rfl
      · exact alert idle w before
      · simp
  | elapse later => exact alert idle

theorem deadlines_of_step (step : Step s m t) :
    t.waiters.map (·.deadline) = s.waiters.map (·.deadline) ++ m.entering?.toList := by
  cases step with
  | notify => simp [Function.comp_def, Waiter.deadline_wake, Move.entering?]
  | enter | change | elapse => simp [Move.entering?]
  | look found | rouse found =>
      obtain ⟨before, after, split, -, set⟩ := exists_split found
      rw [set, split]
      simp [Waiter.deadline_look, Move.entering?]

theorem finds_of_look {deadline : Option Instant}
    (answered : (Waiter.look ⟨deadline, .looking⟩ s.now s.monitor).answer? = some idle) :
    s.Finds deadline idle := by
  by_cases zero : s.monitor.incomplete = 0
  · simp only [Waiter.look, Monitor.isIdle, zero, decide_true, if_true, Waiter.answer?] at answered
    obtain rfl := Option.some.inj answered
    exact .idle zero
  · by_cases expired : Waiter.isDue ⟨deadline, .looking⟩ s.now = true
    · simp only [Waiter.look, Monitor.isIdle, zero, decide_false, Bool.false_eq_true, if_false,
        expired, if_true, Waiter.answer?] at answered
      obtain rfl := Option.some.inj answered
      obtain ⟨due, limited, past⟩ := (Option.any_eq_true ..).mp expired
      exact .late (Nat.pos_of_ne_zero zero) limited (of_decide_eq_true past)
    · simp [Waiter.look, Monitor.isIdle, zero, expired, Waiter.answer?] at answered

theorem answered_of_step (step : Step s m t) (there : t.waiters[i]? = some w)
    (answered : w.answer? = some idle) :
    s.waiters[i]? = some w ∨
      m = .look i ∧ s.waiters[i]? = some ⟨w.deadline, .looking⟩ ∧ s.Finds w.deadline idle := by
  cases step with
  | notify =>
      rw [List.getElem?_map, Option.map_eq_some_iff] at there
      obtain ⟨old, found, rfl⟩ := there
      rw [Waiter.eq_of_answered_wake answered]
      exact .inl found
  | change | elapse => exact .inl there
  | enter deadline =>
      rw [List.getElem?_append] at there
      split at there
      · exact .inl there
      · obtain rfl := List.mem_singleton.mp (List.mem_of_getElem? there)
        cases answered
  | @look j deadline found =>
      rcases Decidable.em (j = i) with rfl | apart
      · obtain ⟨inside, -⟩ := List.getElem?_eq_some_iff.mp found
        rw [List.getElem?_set_self inside, Option.some.injEq] at there
        subst there
        refine .inr ⟨rfl, ?_, ?_⟩
        · rw [Waiter.deadline_look]
          exact found
        · rw [Waiter.deadline_look]
          exact finds_of_look answered
      · rw [List.getElem?_set_ne apart] at there
        exact .inl there
  | @rouse j deadline found =>
      rcases Decidable.em (j = i) with rfl | apart
      · obtain ⟨inside, -⟩ := List.getElem?_eq_some_iff.mp found
        rw [List.getElem?_set_self inside, Option.some.injEq] at there
        subst there
        cases answered
      · rw [List.getElem?_set_ne apart] at there
        exact .inl there

theorem move?_look (found : s.waiters[i]? = some w) (looking : w.waiting = .looking) :
    s.move? (.look i) =
      some { s with waiters := s.waiters.set i (w.look s.now s.monitor) } := by
  simp only [move?, found, if_pos looking]

theorem answer?_moves_look (found : s.waiters[i]? = some w) (looking : w.waiting = .looking) :
    (s.moves [.look i]).answer? i = (w.look s.now s.monitor).answer? := by
  obtain ⟨inside, -⟩ := List.getElem?_eq_some_iff.mp found
  have moved : s.moves [.look i] =
      { s with waiters := s.waiters.set i (w.look s.now s.monitor) } :=
    congrArg (Option.getD · s) (move?_look found looking)
  rw [moved, answer?, List.getElem?_set_self inside]
  rfl

theorem answer?_look {deadline : Option Instant} (idle : s.monitor.isIdle = true)
    (found : s.waiters[i]? = some ⟨deadline, .looking⟩) :
    (s.moves [.look i]).answer? i = some true := by
  rw [answer?_moves_look found rfl]
  simp [Waiter.look, idle, Waiter.answer?]

theorem moves_append (s : WatchedMonitor) (list more : List Move) :
    s.moves (list ++ more) = (s.moves list).moves more :=
  List.foldl_append

theorem step_or_eq (s : WatchedMonitor) (m : Move) :
    Step s m (s.moves [m]) ∨ s.moves [m] = s ∧ s.move? m = none := by
  change Step s m ((s.move? m).getD s) ∨ (s.move? m).getD s = s ∧ s.move? m = none
  cases moved : s.move? m with
  | some t => exact .inl (step_of_move? moved)
  | none => exact .inr ⟨rfl, rfl⟩

/-- What holds of the waiting threads after these moves. -/
structure Watchful (origin : WatchedMonitor) (list : List Move) : Prop where
  /-- The threads wait with the deadlines with which they began. -/
  deadlines : (origin.moves list).waiters.map (·.deadline) = list.filterMap Move.entering?
  /-- A thread that has its answer got it from a look, and the look found what the answer says. -/
  answers : ∀ i w idle, (origin.moves list).waiters[i]? = some w → w.answer? = some idle →
    ∃ before after, list = before ++ .look i :: after ∧
      (origin.moves before).waiters[i]? = some ⟨w.deadline, .looking⟩ ∧
      (origin.moves before).Finds w.deadline idle ∧
      (origin.moves (before ++ [.look i])).answer? i = some idle
  alert : (origin.moves list).Alert
  /-- While the gauge is at zero, every thread without an answer gets one when it moves next. -/
  returns : (origin.moves list).monitor.isIdle = true →
    ∀ i w, (origin.moves list).waiters[i]? = some w → w.answer? = none →
      (origin.moves (list ++ [.look i])).answer? i = some true

variable {origin : WatchedMonitor} {list : List Move}

theorem Alert.returns (alert : s.Alert) (idle : s.monitor.isIdle = true)
    (there : s.waiters[i]? = some w) (open_ : w.answer? = none) :
    (s.moves [.look i]).answer? i = some true := by
  obtain ⟨deadline, waiting⟩ := w
  cases waiting with
  | looking => exact answer?_look idle there
  | asleep => exact absurd rfl (alert idle _ (List.mem_of_getElem? there))
  | answered => cases open_

theorem Watchful.snoc (watchful : Watchful origin list) (m : Move) :
    Watchful origin (list ++ [m]) := by
  obtain ⟨deadlines, answers, alert, -⟩ := watchful
  have alert' : (origin.moves (list ++ [m])).Alert := by
    rw [moves_append]
    rcases step_or_eq (origin.moves list) m with step | ⟨same, -⟩
    · exact alert.of_step step
    · rwa [same]
  refine ⟨?_, ?_, alert', ?_⟩
  · rw [moves_append, List.filterMap_append, ← deadlines]
    rcases step_or_eq (origin.moves list) m with step | ⟨same, impossible⟩
    · rw [deadlines_of_step step]
      cases m <;> rfl
    · rw [same]
      cases m with
      | enter => cases impossible
      | _ => simp [Move.entering?]
  · intro i w idle there answered
    have earlier : (origin.moves list).waiters[i]? = some w → ∃ before after,
        list ++ [m] = before ++ .look i :: after ∧
          (origin.moves before).waiters[i]? = some ⟨w.deadline, .looking⟩ ∧
          (origin.moves before).Finds w.deadline idle ∧
          (origin.moves (before ++ [.look i])).answer? i = some idle := by
      intro found
      obtain ⟨before, after, rfl, looking⟩ := answers i w idle found answered
      exact ⟨before, after ++ [m], by simp, looking⟩
    rw [moves_append] at there
    rcases step_or_eq (origin.moves list) m with step | ⟨same, -⟩
    · rcases answered_of_step step there answered with found | ⟨rfl, looking, finds⟩
      · exact earlier found
      · refine ⟨list, [], rfl, looking, finds, ?_⟩
        rw [moves_append, answer?, there]
        exact answered
    · rw [same] at there
      exact earlier there
  · intro idle i w there open_
    rw [moves_append]
    exact alert'.returns idle there open_

/-- Whatever the threads do and in whatever order, each answer is that of a look, and nobody sleeps
while the gauge is at zero. -/
theorem watchful_of_moves (now : Instant) (m : Monitor) (list : List Move) :
    Watchful ⟨now, m, []⟩ list := by
  induction list using List.reverseRecOn with
  | nil =>
      refine ⟨rfl, ?_, ?_, ?_⟩
      · intro i w idle there
        cases there
      · intro _ w member
        cases member
      · intro _ i w there
        cases there
  | append_singleton list move ih => exact ih.snoc move

theorem exists_moves_of_oversleep (s : WatchedMonitor) (deadline instant : Option Instant) :
    ∃ list, s.oversleep deadline instant = s.moves list := by
  unfold oversleep
  split
  · split
    · exact ⟨_, rfl⟩
    · exact ⟨[], rfl⟩
  · exact ⟨[], rfl⟩

theorem exists_moves_of_follow (deadline : Option Instant)
    (changes : List (Instant × Monitor.Change)) (s : WatchedMonitor) :
    ∃ list, s.follow deadline changes = s.moves list := by
  induction changes generalizing s with
  | nil =>
      obtain ⟨list, slept⟩ := exists_moves_of_oversleep (s.moves [.look 0]) deadline none
      exact ⟨[.look 0] ++ list, by rw [moves_append, ← slept, follow]⟩
  | cons change rest ih =>
      obtain ⟨instant, change⟩ := change
      have waited : ∃ list, (if s.now < instant then
          (s.moves [.look 0]).oversleep deadline (some instant) else s) = s.moves list := by
        split
        · obtain ⟨list, slept⟩ :=
            exists_moves_of_oversleep (s.moves [.look 0]) deadline (some instant)
          exact ⟨[.look 0] ++ list, by rw [moves_append, slept]⟩
        · exact ⟨[], rfl⟩
      obtain ⟨before, waited⟩ := waited
      obtain ⟨after, followed⟩ :=
        ih ((s.moves before).moves [.elapse instant, .change change])
      refine ⟨before ++ ([.elapse instant, .change change] ++ after), ?_⟩
      rw [moves_append, moves_append, ← followed, follow, waited]

/-- A wait that is run together with changes at their instants is one of the runs above. -/
theorem exists_moves_of_watch {watched : WatchedMonitor} {now : Instant} {m : Monitor}
    {timeout : Option Duration} {changes : List (Instant × Monitor.Change)}
    (ran : m.watch now timeout changes = .ok watched) :
    ∃ deadline list, idleDeadline now timeout = .ok deadline ∧
      watched = moves ⟨now, m, []⟩ (.enter deadline :: .look 0 :: list) := by
  unfold Monitor.watch at ran
  cases computed : idleDeadline now timeout with
  | error fault =>
      rw [computed] at ran
      cases ran
  | ok deadline =>
      rw [computed] at ran
      obtain rfl := Except.ok.inj ran
      obtain ⟨list, followed⟩ :=
        exists_moves_of_follow deadline changes (moves ⟨now, m, []⟩ [.enter deadline, .look 0])
      exact ⟨deadline, list, rfl, followed.trans (moves_append ..).symm⟩

end WatchedMonitor

end KeyedJobs
