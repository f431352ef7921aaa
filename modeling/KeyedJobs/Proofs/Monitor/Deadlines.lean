import KeyedJobs.Proofs.Monitor.Watchfulness

/-! # Waits with a deadline

What a wait comes to that begins with a time limit. The deadline is computed before the first look
at the gauge, so a limit that leads beyond the clock's range makes the thread panic whatever the
gauge shows. With any other limit the thread gets nothing but an answer, and until its deadline has
come the wait is one without a limit: two runs that differ in the deadline of one thread make the
same moves, as long as neither deadline has come.
-/

namespace KeyedJobs

variable {α : Type}

theorem map_modify {f : α → α} {g : α → α} (commutes : ∀ x, g (f x) = f (g x))
    (list : List α) (i : Nat) : (list.modify i f).map g = (list.map g).modify i f := by
  apply List.ext_getElem?
  grind

theorem modify_append_of_lt (f : α → α) {list : List α} {i : Nat} (inside : i < list.length)
    (more : List α) : (list ++ more).modify i f = list.modify i f ++ more := by
  apply List.ext_getElem?
  grind

theorem modify_set (f : α → α) (list : List α) (i j : Nat) (x : α) :
    (list.set j x).modify i f = (list.modify i f).set j (if i = j then f x else x) := by
  apply List.ext_getElem?
  grind

/-- The clock can express when a wait with the time limit is over that begins now. -/
def Expressible (now : Instant) (timeout : Option Duration) : Prop :=
  ∀ span ∈ timeout, now.after span / Duration.nanosPerSecond ≤ Instant.lastSecond

instance (now : Instant) (timeout : Option Duration) : Decidable (Expressible now timeout) :=
  inferInstanceAs (Decidable (∀ span ∈ timeout, _))

variable {now : Instant} {timeout : Option Duration}

theorem idleDeadline_of_expressible (expressible : Expressible now timeout) :
    idleDeadline now timeout = .ok (timeout.map now.after) := by
  cases timeout with
  | none => rfl
  | some span =>
      have inRange := expressible span rfl
      simp only [idleDeadline, Instant.deadline?, if_pos inRange, Option.map_some]

theorem idleDeadline_of_inexpressible (beyond : ¬ Expressible now timeout) :
    idleDeadline now timeout = .error .deadlineOverflow := by
  cases timeout with
  | none => exact absurd (fun _ member => by cases member) beyond
  | some span =>
      have beyond : ¬ now.after span / Duration.nanosPerSecond ≤ Instant.lastSecond := by
        simpa [Expressible] using beyond
      simp only [idleDeadline, Instant.deadline?, if_neg beyond]

namespace Waiter

variable {w : Waiter} {deadline : Option Instant} {m : Monitor}

theorem isDue_iff : w.isDue now = true ↔ ∃ due ∈ w.deadline, due ≤ now := by
  simp [isDue, Option.any_eq_true]

theorem isDue_eq_false_iff : w.isDue now = false ↔ ∀ due ∈ w.deadline, now < due := by
  rw [← Bool.not_eq_true, isDue_iff]
  simp only [not_exists, not_and, Nat.not_le]

theorem answer?_look_of_isDue (overdue : w.isDue now = true) (m : Monitor) :
    (w.look now m).answer? = some m.isIdle := by
  unfold look
  rw [overdue]
  cases m.isIdle <;> rfl

/-- The wait with another deadline. -/
def redated (w : Waiter) (deadline : Option Instant) : Waiter :=
  { w with deadline }

theorem wake_redated (w : Waiter) (deadline : Option Instant) :
    (w.redated deadline).wake = w.wake.redated deadline := by
  obtain ⟨_, waiting⟩ := w
  cases waiting <;> rfl

theorem look_redated (early : w.isDue now = false)
    (early' : (w.redated deadline).isDue now = false) (m : Monitor) :
    (w.redated deadline).look now m = (w.look now m).redated deadline := by
  unfold look
  rw [early, early']
  cases m.isIdle <;> rfl

end Waiter

namespace WatchedMonitor

variable {s t : WatchedMonitor} {m : Move} {list : List Move} {i k : Nat} {w : Waiter}
  {deadline deadline' : Option Instant}

theorem move?_rouse (found : s.waiters[i]? = some w) (asleep : w.waiting = .asleep) :
    s.move? (.rouse i) = some { s with waiters := s.waiters.set i w.wake } := by
  simp only [move?, found, if_pos asleep]

/-- The state with another deadline for one of the waits. -/
def redated (s : WatchedMonitor) (i : Nat) (deadline : Option Instant) : WatchedMonitor :=
  { s with waiters := s.waiters.modify i (·.redated deadline) }

theorem getElem?_redated (found : s.waiters[k]? = some w) (i : Nat) (deadline : Option Instant) :
    (s.redated i deadline).waiters[k]? = some (if i = k then w.redated deadline else w) := by
  rw [redated, List.getElem?_modify, found]
  rfl

theorem Step.redated (step : Step s m t) (found : s.waiters[i]? = some w)
    (early : w.isDue s.now = false) (early' : (w.redated deadline).isDue s.now = false) :
    (s.redated i deadline).move? m = some (t.redated i deadline) := by
  cases step with
  | notify settles idle =>
      simp only [move?, WatchedMonitor.change, WatchedMonitor.redated, settles, idle, Bool.and_self,
        if_true, map_modify (fun w => Waiter.wake_redated w deadline)]
  | change quiet =>
      rcases quiet with quiet | quiet <;>
        simp [move?, WatchedMonitor.change, WatchedMonitor.redated, quiet]
  | enter d =>
      obtain ⟨inside, -⟩ := List.getElem?_eq_some_iff.mp found
      simp only [move?, WatchedMonitor.redated, modify_append_of_lt _ inside]
  | @look k d there =>
      generalize same : Waiter.mk d .looking = v at there ⊢
      have looking : v.waiting = .looking := same ▸ rfl
      have alike : (if i = k then v.redated deadline else v).look s.now s.monitor =
          if i = k then (v.look s.now s.monitor).redated deadline else v.look s.now s.monitor := by
        split
        · subst k
          obtain rfl := Option.some.inj (found.symm.trans there)
          exact Waiter.look_redated early early' _
        · rfl
      rw [move?_look (getElem?_redated there i deadline) (by split <;> exact looking)]
      simp only [WatchedMonitor.redated, modify_set, alike]
  | @rouse k d there =>
      rw [move?_rouse (getElem?_redated there i deadline) (by split <;> rfl)]
      simp only [WatchedMonitor.redated, modify_set]
      split <;> rfl
  | elapse later => exact if_pos later

theorem redated_redated (found : s.waiters[i]? = some w) (deadline : Option Instant) :
    (s.redated i deadline).redated i w.deadline = s := by
  have same : (s.waiters.modify i (·.redated deadline)).modify i (·.redated w.deadline) =
      s.waiters := by
    apply List.ext_getElem?
    intro k
    rw [List.getElem?_modify, List.getElem?_modify]
    split
    · subst k
      rw [found]
      rfl
    · simp
  simp only [redated, same]

theorem move?_redated (found : s.waiters[i]? = some w) (early : w.isDue s.now = false)
    (early' : (w.redated deadline).isDue s.now = false) (m : Move) :
    (s.redated i deadline).move? m = (s.move? m).map (·.redated i deadline) := by
  cases moved : s.move? m with
  | some t => exact (step_of_move? moved).redated found early early'
  | none =>
      cases moved' : (s.redated i deadline).move? m with
      | none => rfl
      | some u =>
          -- A move that is possible with the other deadline is possible with the own one, too.
          have found' : (s.redated i deadline).waiters[i]? = some (w.redated deadline) := by
            rw [getElem?_redated found, if_pos rfl]
          have own : ((w.redated deadline).redated w.deadline).isDue s.now = false := early
          have back := (step_of_move? moved').redated found' early' own
          rw [redated_redated found, moved] at back
          cases back

theorem now_le_of_step (step : Step s m t) : s.now ≤ t.now := by
  cases step with
  | elapse later => exact later
  | _ => exact Nat.le_refl _

/-- The thread waits with the deadline, and if it has been told no, the deadline has come. -/
def Idling (s : WatchedMonitor) (i : Nat) (deadline : Option Instant) : Prop :=
  ∃ waiting, s.waiters[i]? = some ⟨deadline, waiting⟩ ∧
    (waiting = .answered false → ∃ due ∈ deadline, due ≤ s.now)

theorem Idling.of_step (idling : s.Idling i deadline) (step : Step s m t) :
    t.Idling i deadline := by
  obtain ⟨waiting, found, late⟩ := idling
  have kept := congrArg (·[i]?) (deadlines_of_step step)
  have inside : i < (s.waiters.map (·.deadline)).length := by
    rw [List.length_map]
    exact (List.getElem?_eq_some_iff.mp found).1
  simp only [List.getElem?_append_left inside, List.getElem?_map, found, Option.map_some,
    Option.map_eq_some_iff] at kept
  obtain ⟨⟨_, waiting'⟩, there, rfl⟩ := kept
  refine ⟨waiting', there, ?_⟩
  rintro rfl
  rcases answered_of_step step there rfl with before | ⟨-, -, finds⟩
  · obtain ⟨-, rfl⟩ := Waiter.mk.inj (Option.some.inj (before.symm.trans found))
    obtain ⟨due, limited, past⟩ := late rfl
    exact ⟨due, limited, Nat.le_trans past (now_le_of_step step)⟩
  · cases finds with
    | late _ limited past => exact ⟨_, limited, Nat.le_trans past (now_le_of_step step)⟩

theorem moves_induct {P : WatchedMonitor → Prop} (starts : P s)
    (keeps : ∀ {s m t}, P s → Step s m t → P t) (list : List Move) : P (s.moves list) := by
  induction list using List.reverseRecOn with
  | nil => exact starts
  | append_singleton list m ih =>
      rw [moves_append]
      rcases step_or_eq (s.moves list) m with step | ⟨same, -⟩
      · exact keeps ih step
      · rwa [same]

theorem now_le_moves (s : WatchedMonitor) (list : List Move) : s.now ≤ (s.moves list).now :=
  moves_induct (P := fun t => s.now ≤ t.now) (Nat.le_refl _)
    (fun before step => Nat.le_trans before (now_le_of_step step)) list

theorem Idling.moves (idling : s.Idling i deadline) (list : List Move) :
    (s.moves list).Idling i deadline :=
  moves_induct idling Idling.of_step list

theorem Alert.moves (alert : s.Alert) (list : List Move) : (s.moves list).Alert :=
  moves_induct alert Alert.of_step list

/-- As long as neither deadline has come, the moves lead to the same with either. -/
theorem Idling.moves_redated (idling : s.Idling i deadline)
    (ahead : ∀ due ∈ deadline, (s.moves list).now < due)
    (ahead' : ∀ due ∈ deadline', (s.moves list).now < due) :
    (s.redated i deadline').moves list = (s.moves list).redated i deadline' := by
  induction list using List.reverseRecOn with
  | nil => rfl
  | append_singleton list m ih =>
      rw [moves_append] at ahead ahead'
      have before := now_le_moves (s.moves list) [m]
      have early : ∀ due ∈ deadline, (s.moves list).now < due := fun due limited =>
        Nat.lt_of_le_of_lt before (ahead due limited)
      have early' : ∀ due ∈ deadline', (s.moves list).now < due := fun due limited =>
        Nat.lt_of_le_of_lt before (ahead' due limited)
      obtain ⟨waiting, found, -⟩ := idling.moves list
      rw [moves_append, moves_append, ih early early']
      change Option.getD _ _ = WatchedMonitor.redated (Option.getD _ _) i deadline'
      rw [move?_redated found (Waiter.isDue_eq_false_iff.mpr early)
        (Waiter.isDue_eq_false_iff.mpr early')]
      cases (s.moves list).move? m <;> rfl

theorem Idling.answer?_late (idling : s.Idling i deadline) {due : Instant}
    (limited : due ∈ deadline) (past : due ≤ s.now) (undecided : s.answer? i = none) :
    (s.moves [.rouse i, .look i]).answer? i = some s.monitor.isIdle := by
  obtain ⟨waiting, found, -⟩ := idling
  have overdue : ∀ waiting, Waiter.isDue ⟨deadline, waiting⟩ s.now = true := fun _ =>
    Waiter.isDue_iff.mpr ⟨due, limited, past⟩
  change ((s.moves [.rouse i]).moves [.look i]).answer? i = _
  cases waiting with
  | looking =>
      have stays : s.moves [.rouse i] = s := by
        change Option.getD (s.move? _) s = s
        simp [move?, found]
      rw [stays, answer?_moves_look found rfl, Waiter.answer?_look_of_isDue (overdue _)]
  | asleep =>
      have woken : s.moves [.rouse i] =
          { s with waiters := s.waiters.set i ⟨deadline, .looking⟩ } :=
        congrArg (Option.getD · s) (move?_rouse found rfl)
      have found' : (s.moves [.rouse i]).waiters[i]? = some ⟨deadline, .looking⟩ := by
        rw [woken]
        exact List.getElem?_set_self (List.getElem?_eq_some_iff.mp found).1
      rw [answer?_moves_look found' rfl, woken, Waiter.answer?_look_of_isDue (overdue _)]
  | answered idle =>
      rw [answer?, found] at undecided
      cases undecided

/-- A thread begins to wait and then moves are made. A deadline that the clock cannot express makes
the thread panic first. -/
def waitAmid (s : WatchedMonitor) (timeout : Option Duration) (list : List Move) :
    Except IdleWaitFault WatchedMonitor :=
  (idleDeadline s.now timeout).map fun deadline => s.moves (.enter deadline :: list)

/-- How far a thread is that waits with the deadline: it has its answer or can get one. -/
structure Returning (s : WatchedMonitor) (i : Nat) (deadline : Option Instant) : Prop where
  /-- It is told no only once the deadline has come. -/
  patient : s.answer? i = some false → ∃ due ∈ deadline, due ≤ s.now
  /-- While the gauge is at zero it is told yes at once. -/
  idle : s.monitor.isIdle = true → s.answer? i = none →
    (s.moves [.look i]).answer? i = some true
  /-- Once the deadline has come it is told what the gauge shows, whether it sleeps or not. -/
  late : ∀ due ∈ deadline, due ≤ s.now → s.answer? i = none →
    (s.moves [.rouse i, .look i]).answer? i = some s.monitor.isIdle

theorem Idling.returning (idling : s.Idling i deadline) (alert : s.Alert) :
    s.Returning i deadline := by
  refine ⟨?_, ?_, ?_⟩
  · obtain ⟨waiting, found, late⟩ := idling
    intro told
    rw [answer?, found] at told
    cases waiting <;> cases told
    exact late rfl
  · obtain ⟨waiting, found, -⟩ := idling
    intro idle undecided
    rw [answer?, found] at undecided
    exact alert.returns idle found undecided
  · intro due limited past undecided
    exact idling.answer?_late limited past undecided

/-- What a wait with the time limit comes to that begins in this state, whatever the threads do
after that and in whatever order. -/
structure Waits (s : WatchedMonitor) (timeout : Option Duration) : Prop where
  /-- With a deadline that the clock cannot express, the wait panics whatever the gauge shows. -/
  panics : ¬ Expressible s.now timeout →
    ∀ list, s.waitAmid timeout list = .error .deadlineOverflow
  /-- With any other one it comes to nothing but an answer. -/
  returns : Expressible s.now timeout → ∀ list, ∃ t, s.waitAmid timeout list = .ok t ∧
    t.Returning s.waiters.length (timeout.map s.now.after)
  /-- Until the deadline has come, the wait is one without a limit. -/
  unlimited : ∀ list t, s.waitAmid timeout list = .ok t →
    (∀ due ∈ timeout.map s.now.after, t.now < due) →
      s.waitAmid none list = .ok (t.redated s.waiters.length none)

theorem waitAmid_of_expressible (expressible : Expressible s.now timeout) (list : List Move) :
    s.waitAmid timeout list = .ok ((s.moves [.enter (timeout.map s.now.after)]).moves list) := by
  rw [waitAmid, idleDeadline_of_expressible expressible]
  rfl

theorem Idling.of_enter (s : WatchedMonitor) (deadline : Option Instant) :
    (s.moves [.enter deadline]).Idling s.waiters.length deadline :=
  ⟨.looking, List.getElem?_concat_length, fun told => by cases told⟩

theorem redated_enter (s : WatchedMonitor) (deadline deadline' : Option Instant) :
    (s.moves [.enter deadline]).redated s.waiters.length deadline' =
      s.moves [.enter deadline'] := by
  have last : (s.waiters ++ [Waiter.mk deadline .looking]).modify s.waiters.length
      (·.redated deadline') = s.waiters ++ [⟨deadline', .looking⟩] := by
    rw [List.modify_eq_take_cons_drop (by simp)]
    simp [Waiter.redated]
  change WatchedMonitor.mk s.now s.monitor _ = WatchedMonitor.mk s.now s.monitor _
  rw [← last]
  rfl

theorem Alert.waits (alert : s.Alert) (timeout : Option Duration) : s.Waits timeout := by
  refine ⟨?_, ?_, ?_⟩
  · intro beyond list
    rw [waitAmid, idleDeadline_of_inexpressible beyond]
    rfl
  · intro expressible list
    refine ⟨_, waitAmid_of_expressible expressible list, ?_⟩
    exact ((Idling.of_enter s _).moves list).returning ((alert.moves _).moves list)
  · intro list t waited ahead
    by_cases expressible : Expressible s.now timeout
    · rw [waitAmid_of_expressible expressible] at waited
      obtain rfl := Except.ok.inj waited
      have alike := (Idling.of_enter s (timeout.map s.now.after)).moves_redated ahead
        fun _ (limited : _ ∈ none) => by cases limited
      rw [redated_enter] at alike
      rw [← alike]
      exact waitAmid_of_expressible (fun _ limited => by cases limited) list
    · rw [waitAmid, idleDeadline_of_inexpressible expressible] at waited
      cases waited

theorem alert_moves (now : Instant) (m : Monitor) (list : List Move) :
    (moves ⟨now, m, []⟩ list).Alert :=
  Alert.moves (fun _ _ member => by cases member) list

end WatchedMonitor

end KeyedJobs
