import KeyedJobs.Proofs.Coordinator.Succession

/-! # Enqueueing one job after the other

Callers may wait for their turns: they enqueue their jobs one after the other and shut down, if at
all, afterwards and by draining. Then all jobs that have a key are admitted, in order, and no job is
ever dropped.
-/

namespace KeyedJobs

/-- Whether the call shuts down and has not looked at the mark. -/
def Stage.marks : Stage → Bool
  | .marking _ => true
  | _ => false

/-- The job that the call is going to push. -/
def Stage.enrols : Stage → List Nat
  | .checking ticket => if ticket.job.key = "" then [] else [ticket.serial]
  | .pushing ticket => [ticket.serial]
  | _ => []

/-- The numbers of the jobs that are chosen, in order. -/
def numbersOf (chosen : Job → Bool) (jobs : List Job) : List Nat :=
  (List.range jobs.length).filter fun n => jobs[n]?.any chosen

/-- The numbers of the jobs that have a key. -/
def keyed (jobs : List Job) : List Nat := numbersOf (·.key ≠ "") jobs

theorem numbersOf_append (chosen : Job → Bool) (jobs : List Job) (job : Job) :
    numbersOf chosen (jobs ++ [job]) =
      numbersOf chosen jobs ++ if chosen job then [jobs.length] else [] := by
  have before : (List.range jobs.length).filter (fun n => (jobs ++ [job])[n]?.any chosen) =
      numbersOf chosen jobs := by
    apply List.filter_congr
    intro n inRange
    rw [List.getElem?_append_left (List.mem_range.mp inRange)]
  rw [numbersOf, List.length_append, List.length_singleton, List.range_succ, List.filter_append,
    before]
  by_cases picked : chosen job <;> simp [picked]

namespace Coordinator

variable {config : Config} {s t : Coordinator} {q q' : KeyQueue Ticket} {m : Move}
  {jobs : List Job}

/-- Whether no call is enqueueing. -/
def isQuiet (s : Coordinator) : Bool := s.calls.all fun stage => !stage.enqueues

/-- Whether some call has shut down or is about to. -/
def isLeaving (s : Coordinator) : Bool := s.shutDown || s.calls.any Stage.marks

/-- Whether the caller that makes the move waits for its turn. -/
def isInLine (s : Coordinator) : Move → Bool
  | .begin (.enqueue _) => s.isQuiet && !s.isLeaving
  | .begin .shutdown | .begin .waitUntilFinished => s.isQuiet && s.shutdownPolicy = .drain
  | .abandon => false
  | _ => true

/-- Every job has been counted that was or will be admitted. -/
structure Spent (s : Coordinator) (q : KeyQueue Ticket) : Prop where
  shut : s.shutDown = true
  empty : s.placed q = []
  clear : q.lines = []

/-- What is certain when all callers wait for their turns. -/
structure Enrolled (jobs : List Job) (s : Coordinator) (q : KeyQueue Ticket) : Prop where
  single : (s.calls.flatMap Stage.enrols).length ≤ 1
  listed : s.admissions ++ s.calls.flatMap Stage.enrols = keyed jobs
  leaving : s.isLeaving = true → s.isQuiet = true ∧ s.shutdownPolicy = .drain
  closed : q.closed = true → s.shutDown = true
  spent : s.channel.closed = true ∨ .hangingUp ∈ s.calls → Spent s q
  kept : ∀ n key, .discarded n key ∉ s.history.toList

theorem quiet_iff : s.isQuiet = true ↔ ∀ stage ∈ s.calls, stage.enqueues = false := by
  simp [isQuiet]

theorem leaving_iff :
    s.isLeaving = true ↔ s.shutDown = true ∨ ∃ stage ∈ s.calls, stage.marks = true := by
  simp [isLeaving]

theorem enrols_of_quiet (quiet : s.isQuiet = true) : s.calls.flatMap Stage.enrols = [] := by
  rw [List.flatMap_eq_nil_iff]
  intro stage member
  have idle := quiet_iff.mp quiet stage member
  cases stage with
  | checking | pushing => cases idle
  | _ => rfl

theorem Enrolled.quiet_of_closed (enrolled : Enrolled jobs s q) (closed : q.closed = true) :
    s.isQuiet = true :=
  (enrolled.leaving (leaving_iff.mpr (.inl (enrolled.closed closed)))).1

theorem enqueues_of_callStep {old new : Stage} (step : CallStep s q old new t q')
    (idle : old.enqueues = false) : new.enqueues = false := by
  cases step with
  | refuseKey | raise | push | refuse | reject | countAdmitted | wake | wakeNobody => cases idle
  | passMark finishing => cases finishing <;> rfl
  | allDropped onward => cases onward using onward_cases <;> rfl
  | closeQueue finishing => cases s.shutdownPolicy <;> cases finishing <;> rfl
  | _ => rfl

theorem marks_of_callStep {old new : Stage} (step : CallStep s q old new t q') :
    new.marks = false := by
  cases step with
  | passMark finishing => cases finishing <;> rfl
  | allDropped onward => cases onward using onward_cases <;> rfl
  | closeQueue finishing => cases s.shutdownPolicy <;> cases finishing <;> rfl
  | _ => rfl

theorem leaving_of_callStep {i : Nat} {old new : Stage} (found : s.calls[i]? = some old)
    (step : CallStep s q old new t q') (leaving : (t.setCall i new).isLeaving = true) :
    s.isLeaving = true := by
  rw [leaving_iff] at leaving ⊢
  rcases leaving with marked | ⟨stage, member, marks⟩
  · cases step with
    | mark => exact .inr ⟨_, List.mem_of_getElem? found, rfl⟩
    | _ => exact .inl marked
  · rw [setCall, calls_of_callStep step] at member
    rcases List.mem_or_eq_of_mem_set member with before | rfl
    · exact .inr ⟨stage, before, marks⟩
    · rw [marks_of_callStep step] at marks
      cases marks

theorem Enrolled.leaving_of_transition (enrolled : Enrolled jobs s q) (inLine : s.isInLine m = true)
    (move : Transition s q m t q') (leaving : t.isLeaving = true) :
    t.isQuiet = true ∧ t.shutdownPolicy = .drain := by
  rw [shutdownPolicy_of_transition move]
  have before := enrolled.leaving
  cases move with
  | worker found step =>
      rw [isLeaving, setWorker, calls_of_workerStep step, shutDown_of_workerStep step] at leaving
      rw [isQuiet, setWorker, calls_of_workerStep step]
      exact before leaving
  | call found step =>
      obtain ⟨quiet, drains⟩ := before (leaving_of_callStep found step leaving)
      refine ⟨quiet_iff.mpr fun stage member => ?_, drains⟩
      rw [setCall, calls_of_callStep step] at member
      rcases List.mem_or_eq_of_mem_set member with earlier | rfl
      · exact quiet_iff.mp quiet stage earlier
      · exact enqueues_of_callStep step (quiet_iff.mp quiet _ (List.mem_of_getElem? found))
  | enter request =>
      cases request with
      | enqueue job =>
          have staying : s.isLeaving = false := by simp_all [isInLine]
          rw [isLeaving, List.any_append] at leaving
          rw [isLeaving] at staying
          simp [staying, firstStage, Stage.marks] at leaving
      | shutdown | waitUntilFinished =>
          obtain ⟨quiet, drains⟩ : s.isQuiet = true ∧ s.shutdownPolicy = .drain := by
            simpa [isInLine] using inLine
          exact ⟨by simpa [isQuiet, firstStage, Stage.enqueues] using quiet, drains⟩
      | waitUntilIdle timeout =>
          have first : (s.firstStage (.waitUntilIdle timeout)).marks = false ∧
              (s.firstStage (.waitUntilIdle timeout)).enqueues = false := by
            simp only [firstStage]
            split <;> exact ⟨rfl, rfl⟩
          simp_all [isLeaving, isQuiet]
  | exit found =>
      rw [leaving_iff] at leaving
      obtain ⟨quiet, drains⟩ := before (leaving_iff.mpr (leaving.imp_right fun marking => by
        obtain ⟨stage, member, marks⟩ := marking
        exact ⟨stage, List.mem_of_mem_eraseIdx member, marks⟩))
      exact ⟨quiet_iff.mpr fun stage member =>
        quiet_iff.mp quiet stage (List.mem_of_mem_eraseIdx member), drains⟩
  | resolve | elapse => exact before leaving
  | abandon => cases inLine

theorem Enrolled.listed_of_call (enrolled : Enrolled jobs s q) {i : Nat} {old new : Stage}
    (found : s.calls[i]? = some old) (step : CallStep s q old new t q') :
    ((t.setCall i new).calls.flatMap Stage.enrols).length ≤ 1 ∧
      (t.setCall i new).admissions ++ (t.setCall i new).calls.flatMap Stage.enrols =
        keyed jobs := by
  obtain ⟨single, listed⟩ := And.intro enrolled.single enrolled.listed
  have still : new.enrols = old.enrols → t.admissions = s.admissions →
      ((t.setCall i new).calls.flatMap Stage.enrols).length ≤ 1 ∧
        (t.setCall i new).admissions ++ (t.setCall i new).calls.flatMap Stage.enrols =
          keyed jobs := by
    intro same admitted
    have admitted : (t.setCall i new).admissions = s.admissions := admitted
    rw [admitted, setCall, calls_of_callStep step, flatMap_set_of_eq found same]
    exact ⟨single, listed⟩
  cases step with
  | refuseKey empty => exact still (by simp [Stage.enrols, empty]) rfl
  | raise named => exact still (by simp [Stage.enrols, named]) rfl
  | refuse closed =>
      have idle := quiet_iff.mp (enrolled.quiet_of_closed closed) _ (List.mem_of_getElem? found)
      cases idle
  | @push ticket _ pushed =>
      have alone := perm_flatMap Stage.enrols found
      have after := perm_flatMap_set Stage.enrols found (.admitting ticket.job.key)
      have others : (s.calls.eraseIdx i).flatMap Stage.enrols = [] := by
        have length := alone.length_eq
        rw [List.length_append] at length
        simp only [Stage.enrols, List.length_singleton] at length
        exact List.length_eq_zero_iff.mp (by omega)
      rw [others] at alone after
      have here : s.calls.flatMap Stage.enrols = [ticket.serial] := alone.eq_singleton
      have now : (s.calls.set i (.admitting ticket.job.key)).flatMap Stage.enrols = [] :=
        after.eq_nil
      simp only [setCall, note, now, List.length_nil, admissions] at *
      refine ⟨Nat.zero_le 1, ?_⟩
      rw [here] at listed
      simpa [Event.admits] using listed
  | discard => exact still rfl (by rw [admissions_note, admits_discarded]; exact List.append_nil _)
  | count => exact still rfl (admissions_countResolved ..)
  | passMark finishing => cases finishing <;> exact still rfl rfl
  | allDropped onward => cases onward using onward_cases <;> exact still rfl rfl
  | closeQueue finishing =>
      cases policy : s.shutdownPolicy <;> cases finishing <;> rw [policy] at still <;>
        exact still rfl rfl
  | _ => exact still rfl rfl

theorem Enrolled.listed_of_transition (enrolled : Enrolled jobs s q) (roster : Roster jobs s q)
    (inLine : s.isInLine m = true) (move : Transition s q m t q') :
    (t.calls.flatMap Stage.enrols).length ≤ 1 ∧
      t.admissions ++ t.calls.flatMap Stage.enrols = keyed (jobs ++ m.jobs) := by
  obtain ⟨single, listed⟩ := And.intro enrolled.single enrolled.listed
  cases move with
  | @worker i old new t q' found step =>
      have same : (t.setWorker i new).admissions = s.admissions := (admissions_of_workerStep step : _)
      have calls : (t.setWorker i new).calls = s.calls := (calls_of_workerStep step : _)
      simp only [same, calls, Move.jobs, List.append_nil]
      exact ⟨single, listed⟩
  | call found step =>
      simp only [Move.jobs, List.append_nil]
      exact enrolled.listed_of_call found step
  | exit found =>
      simp only [flatMap_eraseIdx_of_nil (f := Stage.enrols) found rfl, Move.jobs, List.append_nil]
      exact ⟨single, listed⟩
  | resolve | elapse =>
      simp only [Move.jobs, List.append_nil]
      exact ⟨single, listed⟩
  | enter request =>
      rw [List.flatMap_append, List.flatMap_singleton]
      cases request with
      | enqueue job =>
          have idle := enrols_of_quiet (s := s) (by simp_all [isInLine])
          have first : (s.firstStage (.enqueue job)).enrols =
              if job.key = "" then [] else [jobs.length] := by
            rw [firstStage, Stage.enrols, roster.brought]
          rw [idle, List.append_nil] at listed
          rw [keyed] at listed
          rw [idle, first, Move.jobs, Request.jobs, keyed, numbersOf_append, ← listed]
          by_cases nameless : job.key = "" <;> simp [nameless, admissions]
      | shutdown | waitUntilFinished =>
          simp only [Move.jobs, Request.jobs, firstStage, Stage.enrols, List.append_nil]
          exact ⟨single, listed⟩
      | waitUntilIdle timeout =>
          have first : (s.firstStage (.waitUntilIdle timeout)).enrols = [] := by
            simp only [firstStage]
            split <;> rfl
          simp only [first, Move.jobs, Request.jobs, List.append_nil]
          exact ⟨single, listed⟩
  | abandon => cases inLine

theorem unended_of_placed (empty : s.placed q = []) : s.unended = [] := by
  rw [List.eq_nil_iff_forall_not_mem]
  intro n member
  have present := List.count_pos_iff.mpr member
  have located := count_unended s n
  have placed := count_placed s q n
  rw [empty, List.count_nil] at placed
  omega

theorem shutDown_of_transition (marked : s.shutDown = true) (move : Transition s q m t q') :
    t.shutDown = true := by
  cases move with
  | worker _ step => exact (shutDown_of_workerStep step ▸ marked : _)
  | call _ step => exact (shutDown_of_callStep step marked : _)
  | _ => exact marked

theorem line?_of_lines {key : String} (clear : q.lines = []) : q.line? key = none := by
  rw [KeyQueue.line?, clear]
  rfl

theorem lines_of_shift (clear : q.lines = []) (quiet : s.isQuiet = true) {gone come : List Bearing}
    {events : List Event} (shift : Shift s q gone come events q') : q'.lines = [] := by
  have absent : ∀ key, q.line? key = none := fun _ => line?_of_lines clear
  cases shift with
  | rest silent same => rw [same, clear]
  | push found => cases quiet_iff.mp quiet _ (List.mem_of_getElem? found)
  | handOut taken =>
      obtain ⟨rest, found, -⟩ := KeyQueue.tryActivate_eq_some taken
      rw [absent] at found
      cases found
  | handOver released =>
      obtain ⟨rest, found, -⟩ := KeyQueue.release_eq_some released
      rw [absent] at found
      cases found
  | closeLine marked =>
      obtain ⟨waiting, found⟩ := KeyQueue.line?_of_mark marked
      rw [absent] at found
      cases found
  | begin | drive | finish | refuse => exact clear
  | discard => simp [KeyQueue.discardWaiting, clear]

theorem Spent.of_transition (spent : Spent s q) (quiet : s.isQuiet = true) (before : Placed s q)
    (after : Placed t q') (move : Transition s q m t q') : Spent t q' where
  shut := shutDown_of_transition spent.shut move
  empty := by
    refine placed_of_transition spent.empty before after move (admissions_of_refused ?_ move)
    intro ticket member
    cases quiet_iff.mp quiet _ member
  clear := by
    obtain ⟨_, _, _, shift, -, -⟩ := move.shift
    exact lines_of_shift spent.clear quiet shift

theorem Enrolled.spent_of_transition (enrolled : Enrolled jobs s q) (custody : Custody s q)
    (guarded : Guarded s q) (ledger : Ledger s) (before : Placed s q) (after : Placed t q')
    (inLine : s.isInLine m = true) (move : Transition s q m t q')
    (late : t.channel.closed = true ∨ .hangingUp ∈ t.calls) : Spent t q' := by
  have kept : Spent s q → Spent t q' := fun spent =>
    spent.of_transition (enrolled.leaving (leaving_iff.mpr (.inl spent.shut))).1 before after move
  have earlier : s.channel.closed = true ∨ .hangingUp ∈ s.calls → Spent t q' := fun late =>
    kept (enrolled.spent late)
  cases move with
  | worker found step =>
      rw [setWorker, channel_of_workerStep step, calls_of_workerStep step] at late
      exact earlier late
  | @call i old new t q' found step =>
      rcases late with closed | hanging
      · rcases closed_of_callStep step closed with before | rfl
        · exact earlier (.inl before)
        · exact earlier (.inr (List.mem_of_getElem? found))
      · rw [setCall, calls_of_callStep step] at hanging
        rcases List.mem_or_eq_of_mem_set hanging with before | now
        · exact earlier (.inr before)
        · -- A call gets here only when the gauge is at zero, and has set the mark before that.
          obtain ⟨rfl, idle⟩ := hanging_of_callStep step now.symm
          have shown := ledger.incomplete before
          have empty : s.placed q = [] := List.length_eq_zero_iff.mp (by omega)
          cases closed : s.channel.closed with
          | true => exact earlier (.inl closed)
          | false =>
              exact kept ⟨guarded.marked _ (List.mem_of_getElem? found) rfl, empty,
                custody.lines_of_placed closed empty⟩
  | enter request =>
      refine earlier (late.imp_right fun hanging => ?_)
      rcases List.mem_append.mp hanging with before | now
      · exact before
      · have passed := s.passed_firstStage request
        rw [← List.mem_singleton.mp now] at passed
        cases passed
  | exit => exact earlier (late.imp_right List.mem_of_mem_eraseIdx)
  | resolve | elapse => exact earlier late
  | abandon => cases inLine

/-- A closed channel has no job to refuse, and no call discards the waiting jobs. -/
theorem Enrolled.kept_of_transition (enrolled : Enrolled jobs s q) (guarded : Guarded s q)
    (discarding : Discarding s q) (move : Transition s q m t q') (n : Nat) (key : String) :
    .discarded n key ∉ t.history.toList := by
  obtain ⟨gone, come, events, shift, ⟨kept, before, -⟩, noted⟩ := move.shift
  rw [noted, List.mem_append]
  rintro (earlier | now)
  · exact enrolled.kept n key earlier
  · cases shift with
    | rest silent => cases silent _ now
    | refuse next closed =>
        have unended := unended_of_placed (enrolled.spent (.inl closed)).empty
        rw [Coordinator.unended, List.flatMap_eq_nil_iff] at unended
        cases unended (.fresh next) (before.mem_iff.mpr List.mem_cons_self)
    | discard found =>
        have present := List.mem_of_getElem? found
        have marked := guarded.marked _ present rfl
        have drains := (enrolled.leaving (leaving_iff.mpr (.inl marked))).2
        rw [(discarding _ present).2] at drains
        cases drains
    | _ => simp at now

theorem Enrolled.of_transition (enrolled : Enrolled jobs s q) (sound : Sound s q)
    (roster : Roster jobs s q) (discarding : Discarding s q) (inLine : s.isInLine m = true)
    (move : Transition s q m t q') : Enrolled (jobs ++ m.jobs) t q' := by
  obtain ⟨single, listed⟩ := enrolled.listed_of_transition roster inLine move
  exact ⟨single, listed, enrolled.leaving_of_transition inLine move,
    marked_of_closed enrolled.closed sound.guarded move,
    enrolled.spent_of_transition sound.custody sound.guarded sound.ledger sound.placed
      (sound.of_transition move).placed inLine move,
    enrolled.kept_of_transition sound.guarded discarding move⟩

theorem Enrolled.of_fresh (config : Config) : Enrolled [] (fresh config) .empty where
  single := Nat.zero_le 1
  listed := rfl
  leaving leaving := by cases leaving
  closed closed := by cases closed
  spent late := by rcases late with closed | hanging <;> contradiction
  kept _ _ member := by cases member

end Coordinator

end KeyedJobs
