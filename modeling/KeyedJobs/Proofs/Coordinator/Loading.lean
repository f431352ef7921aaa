import KeyedJobs.Proofs.Coordinator.Enrolment
import KeyedJobs.Proofs.Coordinator.LineUp

/-! # Jobs lined up before an idle worker

Jobs are enqueued one after the other while the only worker has not yet received a signal. Then each
of them waits under its key, one wake signal for each is in the channel, in the same order, and the
line-up before the worker is the jobs in the order of their turns.
-/

namespace KeyedJobs

/-- The key that the call is going to wake, and the job under it that it is going to push. -/
def Stage.enlists : Stage → List (String × List Nat)
  | .checking ticket | .pushing ticket => [(ticket.job.key, [ticket.serial])]
  | .admitting key | .waking key => [(key, [])]
  | _ => []

namespace Coordinator

variable {config : Config} {s t origin : Coordinator} {q q' : KeyQueue Ticket} {m : Move}
  {jobs : List Job} {rule : Coordinator → Move → Bool}

/-- A part of a run whose moves keep to the rule, with the jobs that it brings. -/
inductive Stretch (rule : Coordinator → Move → Bool) (s : Coordinator) :
    List Job → Coordinator → Prop where
  | refl : Stretch rule s [] s
  | step {jobs : List Job} {t : Coordinator} (m : Move) (stretch : Stretch rule s jobs t)
      (possible : t.canMove m = true) (keeps : rule t m = true) :
      Stretch rule s (jobs ++ m.jobs) (t.move m)

theorem Stretch.reaches (stretch : Stretch rule s jobs t) : Reaches s t := by
  induction stretch with
  | refl => exact .refl s
  | step m _ possible _ ih => exact ih.step m possible

/-- Whether the moves keep to the rule when they are made one after the other. -/
def keepsTo (rule : Coordinator → Move → Bool) : Coordinator → List Move → Bool
  | _, [] => true
  | s, m :: rest => rule s m && keepsTo rule (s.move m) rest

theorem Stretch.follow (stretch : Stretch rule s jobs t) {moves : List Move}
    (possible : t.canFollow moves = true) (keeps : keepsTo rule t moves = true) :
    Stretch rule s (jobs ++ moves.flatMap Move.jobs) (t.follow moves) := by
  induction moves generalizing jobs t with
  | nil => exact (List.append_nil jobs).symm ▸ stretch
  | cons m rest ih =>
      simp only [canFollow, keepsTo, Bool.and_eq_true] at possible keeps
      rw [List.flatMap_cons, ← List.append_assoc]
      exact ih (stretch.step m possible.1 keeps.1) possible.2 keeps.2

/-- No job is under way, and no call has shut down or is about to. -/
structure Resting (s : Coordinator) : Prop where
  quiet : s.Quiet
  opened : s.channel.closed = false
  staying : s.isLeaving = false

/-- Whether the move leaves the workers idle and the coordinator open, and enqueues a job only if it
has a key and the one before it has been enqueued. -/
def isLoading (s : Coordinator) : Move → Bool
  | .begin (.enqueue job) => s.isQuiet && job.key ≠ ""
  | .begin .shutdown | .begin .waitUntilFinished | .worker _ | .abandon => false
  | _ => true

/-- What the calls have still to do for the jobs that they enqueue. -/
def enlisting (s : Coordinator) : List (String × List Nat) := s.calls.flatMap Stage.enlists

/-- The jobs are lined up behind what was there at the origin, but for the one that a call is
enqueueing. -/
structure Loaded (origin : Coordinator) (jobs : List Job) (s : Coordinator)
    (q : KeyQueue Ticket) : Prop where
  workers : s.workers = [.receiving]
  opened : s.channel.closed = false
  accepts : q.closed = false
  staying : s.isLeaving = false
  brought : s.brought = origin.brought + jobs.length
  unmarked : ∀ key, q.mark key = 0
  named : ∀ ticket, .checking ticket ∈ s.calls → ticket.job.key ≠ ""
  single : s.enlisting.length ≤ 1
  woken : s.channel.held ++ s.enlisting.map (.wake ·.1) = jobs.map (.wake ·.key)
  lanes : ∀ key, (q.lane key ++ s.enlisting.flatMap fun entry =>
    if entry.1 = key then entry.2 else []) =
      (placesOf (jobs.map (·.key)) key).map (origin.brought + ·)

theorem enlisting_of_quiet (quiet : ∀ stage ∈ s.calls, stage.enqueues = false) :
    s.enlisting = [] := by
  rw [enlisting, List.flatMap_eq_nil_iff]
  intro stage member
  have idle := quiet stage member
  cases stage with
  | checking | pushing | admitting | waking => cases idle
  | _ => rfl

theorem not_leaving (staying : s.isLeaving = false) :
    s.shutDown = false ∧ ∀ stage ∈ s.calls, stage.marks = false := by
  simpa [isLeaving] using staying

theorem not_passed (guarded : Guarded s q) (staying : s.isLeaving = false) {stage : Stage}
    (member : stage ∈ s.calls) : stage.passed = false := by
  by_contra passed
  have marked := guarded.marked stage member (by simpa using passed)
  rw [(not_leaving staying).1] at marked
  cases marked

theorem leaving_of_transition (move : Transition s q m t q') (leaving : t.isLeaving = true) :
    s.isLeaving = true ∨ m = .begin .shutdown ∨ m = .begin .waitUntilFinished := by
  cases move with
  | worker found step =>
      rw [isLeaving, setWorker, calls_of_workerStep step, shutDown_of_workerStep step] at leaving
      exact .inl leaving
  | call found step => exact .inl (leaving_of_callStep found step leaving)
  | exit found =>
      refine .inl (leaving_iff.mpr ((leaving_iff.mp leaving).imp_right fun marking => ?_))
      obtain ⟨stage, member, marks⟩ := marking
      exact ⟨stage, List.mem_of_mem_eraseIdx member, marks⟩
  | resolve | elapse | abandon => exact .inl leaving
  | enter request =>
      cases request with
      | shutdown => exact .inr (.inl rfl)
      | waitUntilFinished => exact .inr (.inr rfl)
      | enqueue job =>
          refine .inl ?_
          rw [isLeaving] at leaving ⊢
          simpa [firstStage, Stage.marks] using leaving
      | waitUntilIdle timeout =>
          have first : (s.firstStage (.waitUntilIdle timeout)).marks = false := by
            simp only [firstStage]
            split <;> rfl
          refine .inl ?_
          rw [isLeaving] at leaving ⊢
          simpa [first] using leaving

/-- What holds in every state of a run, with what is known there of calls that shut down. -/
structure Kept (s : Coordinator) (q : KeyQueue Ticket) : Prop where
  sound : Sound s q
  discarding : Discarding s q
  closed : q.closed = true → s.shutDown = true

theorem Kept.of_transition (kept : Kept s q) (move : Transition s q m t q') : Kept t q' :=
  ⟨kept.sound.of_transition move, kept.discarding.of_transition move,
    marked_of_closed kept.closed kept.sound.guarded move⟩

theorem Kept.move (kept : Kept s q) (possible : s.canMove m = true) :
    ∃ q', Transition s q m (s.move m) q' ∧ Kept (s.move m) q' := by
  obtain ⟨q', move⟩ := kept.sound.custody.transition possible
  exact ⟨q', move, kept.of_transition move⟩

theorem Arises.kept (arises : Arises config s) : ∃ q, Kept s q := by
  have starts : Kept (fresh config) .empty :=
    ⟨.of_fresh config, fun _ member => (by cases member), fun closed => (by cases closed)⟩
  obtain ⟨q, -, kept⟩ := arises.induct starts fun _ _ kept move => kept.of_transition move
  exact ⟨q, kept⟩

theorem Loaded.of_resting (resting : Resting s) (kept : Kept s q)
    (alone : s.workers.length = 1) : Loaded s [] s q := by
  have clear := kept.sound.custody.lines_of_quiet kept.sound.awake resting.opened resting.quiet
  have absent : ∀ key, q.line? key = none := fun _ => line?_of_lines clear
  have silent := enlisting_of_quiet resting.quiet.calls
  constructor
  · obtain ⟨worker, only⟩ := List.length_eq_one_iff.mp alone
    rw [only, resting.quiet.workers worker (only ▸ List.mem_singleton_self worker)]
  · exact resting.opened
  · by_contra closed
    have marked := kept.closed (by simpa using closed)
    rw [(not_leaving resting.staying).1] at marked
    cases marked
  · exact resting.staying
  · rfl
  · intro key
    simp [KeyQueue.mark, absent key]
  · intro ticket member
    cases resting.quiet.calls _ member
  · rw [silent]
    exact Nat.zero_le 1
  · rw [silent, resting.quiet.channel]
    rfl
  · intro key
    rw [silent, KeyQueue.lane, KeyQueue.waitingOn, absent key]
    rfl

theorem enlisting_of_single (single : s.enlisting.length ≤ 1) {i : Nat} {old : Stage}
    (found : s.calls[i]? = some old) (enlists : old.enlists ≠ []) (new : Stage) :
    s.enlisting = old.enlists ∧ (s.setCall i new).enlisting = new.enlists := by
  have before := perm_flatMap Stage.enlists found
  have after := perm_flatMap_set Stage.enlists found new
  have positive := List.length_pos_iff.mpr enlists
  have others : (s.calls.eraseIdx i).flatMap Stage.enlists = [] := by
    have length := before.length_eq
    rw [List.length_append] at length
    rw [enlisting] at single
    exact List.length_eq_zero_iff.mp (by omega)
  rw [others, List.append_nil] at before after
  cases old with
  | checking | pushing | admitting | waking =>
      refine ⟨before.eq_singleton, ?_⟩
      rw [enlisting, setCall]
      cases new with
      | checking | pushing | admitting | waking => exact after.eq_singleton
      | _ => exact after.eq_nil
  | _ => exact absurd rfl enlists

theorem Loaded.kept (loaded : Loaded origin jobs s q) (workers : t.workers = s.workers)
    (channel : t.channel = s.channel) (brought : t.brought = s.brought)
    (staying : t.isLeaving = false) (enlisting : t.enlisting = s.enlisting)
    (named : ∀ ticket, .checking ticket ∈ t.calls → .checking ticket ∈ s.calls) :
    Loaded origin jobs t q where
  workers := workers.trans loaded.workers
  opened := channel ▸ loaded.opened
  accepts := loaded.accepts
  staying := staying
  brought := brought.trans loaded.brought
  unmarked := loaded.unmarked
  named ticket member := loaded.named ticket (named ticket member)
  single := enlisting ▸ loaded.single
  woken := by rw [channel, enlisting]; exact loaded.woken
  lanes := by rw [enlisting]; exact loaded.lanes

theorem checking_of_setCall {i : Nat} {old new : Stage} (step : CallStep s q old new t q')
    (unchecked : ∀ ticket, new ≠ .checking ticket) (ticket : Ticket)
    (member : .checking ticket ∈ (t.setCall i new).calls) : .checking ticket ∈ s.calls := by
  rw [setCall, calls_of_callStep step] at member
  rcases List.mem_or_eq_of_mem_set member with before | now
  · exact before
  · exact absurd now.symm (unchecked ticket)

theorem Loaded.of_push (loaded : Loaded origin jobs s q) {i : Nat} {ticket : Ticket}
    (found : s.calls[i]? = some (.pushing ticket)) (pushed : q.push ticket.job.key ticket = .ok q')
    (workers : t.workers = s.workers) (channel : t.channel = s.channel)
    (brought : t.brought = s.brought) (staying : t.isLeaving = false)
    (calls : t.calls = s.calls.set i (.admitting ticket.job.key))
    (named : ∀ other, .checking other ∈ t.calls → .checking other ∈ s.calls) :
    Loaded origin jobs t q' := by
  obtain ⟨before, after⟩ := enlisting_of_single loaded.single found (List.cons_ne_nil _ _)
    (.admitting ticket.job.key)
  have now : t.enlisting = [(ticket.job.key, [])] := by
    rw [enlisting, calls]
    exact after
  have woken := loaded.woken
  rw [before] at woken
  constructor
  · exact workers.trans loaded.workers
  · exact channel ▸ loaded.opened
  · rw [KeyQueue.closed_push pushed, loaded.accepts]
  · exact staying
  · exact brought.trans loaded.brought
  · exact fun key => (KeyQueue.mark_push pushed).trans (loaded.unmarked key)
  · exact fun other member => loaded.named other (named other member)
  · rw [now]
    exact Nat.le_refl 1
  · rw [now, channel]
    exact woken
  · intro key
    have lanes := loaded.lanes key
    rw [before] at lanes
    rw [now, ← lanes, KeyQueue.lane_of_push pushed]
    by_cases here : ticket.job.key = key
    · simp [Stage.enlists, here]
    · simp [Stage.enlists, here, Ne.symm here]

theorem Loaded.of_wake (loaded : Loaded origin jobs s q) {i : Nat} {key : String}
    (found : s.calls[i]? = some (.waking key)) (workers : t.workers = s.workers)
    (channel : t.channel = ⟨s.channel.held ++ [.wake key], false⟩)
    (brought : t.brought = s.brought) (staying : t.isLeaving = false)
    (calls : t.calls = s.calls.set i (.answered .admitted))
    (named : ∀ other, .checking other ∈ t.calls → .checking other ∈ s.calls) :
    Loaded origin jobs t q := by
  obtain ⟨before, after⟩ := enlisting_of_single loaded.single found (List.cons_ne_nil _ _)
    (.answered .admitted)
  have now : t.enlisting = [] := by
    rw [enlisting, calls]
    exact after
  have woken := loaded.woken
  rw [before] at woken
  constructor
  · exact workers.trans loaded.workers
  · rw [channel]
  · exact loaded.accepts
  · exact staying
  · exact brought.trans loaded.brought
  · exact loaded.unmarked
  · exact fun other member => loaded.named other (named other member)
  · rw [now]
    exact Nat.zero_le 1
  · rw [now, channel, List.map_nil, List.append_nil]
    exact woken
  · intro other
    have lanes := loaded.lanes other
    rw [before] at lanes
    rw [now, ← lanes]
    simp [Stage.enlists]

theorem Loaded.of_callStep (loaded : Loaded origin jobs s q) (guarded : Guarded s q) {i : Nat}
    {old new : Stage} (found : s.calls[i]? = some old) (step : CallStep s q old new t q')
    (staying : (t.setCall i new).isLeaving = false) :
    Loaded origin jobs (t.setCall i new) q' := by
  have present := List.mem_of_getElem? found
  have unpassed := not_passed guarded loaded.staying present
  have same : new.enlists = old.enlists → (t.setCall i new).enlisting = s.enlisting := by
    intro same
    rw [enlisting, setCall, calls_of_callStep step]
    exact flatMap_set_of_eq found same
  have named := checking_of_setCall (i := i) step
  cases step with
  | refuseKey empty => exact absurd empty (loaded.named _ present)
  | refuse closed =>
      rw [loaded.accepts] at closed
      cases closed
  | wakeNobody key log closed =>
      rw [loaded.opened] at closed
      cases closed
  | raise | reject | stopIdling | countAdmitted =>
      exact loaded.kept rfl rfl rfl staying (same rfl) (named fun _ same => by cases same)
  | push pushed =>
      exact loaded.of_push found pushed rfl rfl rfl staying rfl (named fun _ same => by cases same)
  | wake key opened =>
      exact loaded.of_wake found rfl rfl rfl staying rfl (named fun _ same => by cases same)
  | mark | passMark =>
      have marks := (not_leaving loaded.staying).2 _ present
      cases marks
  | _ => cases unpassed

theorem Loaded.of_enqueue (loaded : Loaded origin jobs s q) (quiet : s.isQuiet = true) {job : Job}
    (named : job.key ≠ "") (workers : t.workers = s.workers) (channel : t.channel = s.channel)
    (calls : t.calls = s.calls ++ [.checking ⟨s.brought, job⟩])
    (brought : t.brought = s.brought + 1) (staying : t.isLeaving = false) :
    Loaded origin (jobs ++ [job]) t q := by
  have silent := enlisting_of_quiet (quiet_iff.mp quiet)
  have now : t.enlisting = [(job.key, [s.brought])] := by
    rw [enlisting] at silent
    rw [enlisting, calls, List.flatMap_append, silent]
    rfl
  have woken := loaded.woken
  rw [silent, List.map_nil, List.append_nil] at woken
  constructor
  · exact workers.trans loaded.workers
  · exact channel ▸ loaded.opened
  · exact loaded.accepts
  · exact staying
  · rw [brought, loaded.brought, List.length_append, List.length_singleton, Nat.add_assoc]
  · exact loaded.unmarked
  · intro ticket member
    rw [calls] at member
    rcases List.mem_append.mp member with before | first
    · exact loaded.named ticket before
    · obtain rfl := Stage.checking.inj (List.mem_singleton.mp first)
      exact named
  · rw [now]
    exact Nat.le_refl 1
  · rw [now, channel, woken, List.map_append]
    rfl
  · intro key
    have lanes := loaded.lanes key
    rw [silent, List.flatMap_nil, List.append_nil] at lanes
    rw [now, List.map_append, List.map_singleton, placesOf_append, List.map_append, ← lanes,
      List.length_map]
    by_cases here : job.key = key <;> simp [here, loaded.brought]

theorem Loaded.of_transition (loaded : Loaded origin jobs s q) (guarded : Guarded s q)
    (keeps : s.isLoading m = true) (move : Transition s q m t q') :
    Loaded origin (jobs ++ m.jobs) t q' := by
  have staying : t.isLeaving = false := by
    by_contra leaving
    rcases leaving_of_transition move (by simpa using leaving) with before | rfl | rfl
    · rw [loaded.staying] at before
      cases before
    · cases keeps
    · cases keeps
  cases move with
  | worker | abandon => cases keeps
  | call found step =>
      simp only [Move.jobs, List.append_nil]
      exact loaded.of_callStep guarded found step staying
  | exit found =>
      simp only [Move.jobs, List.append_nil]
      exact loaded.kept rfl rfl rfl staying (flatMap_eraseIdx_of_nil found rfl)
        fun ticket => List.mem_of_mem_eraseIdx
  | resolve | elapse =>
      simp only [Move.jobs, List.append_nil]
      exact loaded.kept rfl rfl rfl staying rfl fun _ => id
  | enter request =>
      cases request with
      | shutdown | waitUntilFinished => cases keeps
      | waitUntilIdle timeout =>
          have first : (s.firstStage (.waitUntilIdle timeout)).enlists = [] ∧
              ∀ ticket, s.firstStage (.waitUntilIdle timeout) ≠ .checking ticket := by
            simp only [firstStage]
            split <;> exact ⟨rfl, fun _ same => by cases same⟩
          simp only [Move.jobs, Request.jobs, List.append_nil]
          refine loaded.kept rfl rfl rfl staying ?_ fun ticket member => ?_
          · simp [enlisting, first.1]
          · rcases List.mem_append.mp member with before | now
            · exact before
            · exact absurd (List.mem_singleton.mp now).symm (first.2 ticket)
      | enqueue job =>
          obtain ⟨quiet, named⟩ : s.isQuiet = true ∧ job.key ≠ "" := by
            simpa [isLoading] using keeps
          exact loaded.of_enqueue quiet named rfl rfl rfl rfl staying

theorem Stretch.loaded (stretch : Stretch isLoading s jobs t) (arises : Arises config s)
    (resting : Resting s) (alone : s.workers.length = 1) : ∃ q, Kept t q ∧ Loaded s jobs t q := by
  induction stretch with
  | refl =>
      obtain ⟨q, kept⟩ := arises.kept
      exact ⟨q, kept, .of_resting resting kept alone⟩
  | step m _ possible keeps ih =>
      obtain ⟨q, kept, loaded⟩ := ih
      obtain ⟨q', move, after⟩ := kept.move possible
      exact ⟨q', after, loaded.of_transition kept.sound.guarded keeps move⟩

/-- The numbers of the jobs, counted up from the first one, in the order of their turns. -/
def inTurn (jobs : List Job) (first : Nat) : List Nat :=
  (turns (jobs.map (·.key))).map (first + ·)

/-- Once the last job has been enqueued, the line-up is the jobs in the order of their turns. -/
theorem Loaded.linedUp (loaded : Loaded origin jobs s q) (quiet : s.isQuiet = true) :
    LinedUp (· < origin.brought + jobs.length)
      (s.driven.filter (· < origin.brought + jobs.length) ++ inTurn jobs origin.brought) s q
      .receiving := by
  have silent := enlisting_of_quiet (quiet_iff.mp quiet)
  have woken := loaded.woken
  rw [silent, List.map_nil, List.append_nil] at woken
  have idle : q.idleLane =
      fun key => (placesOf (jobs.map (·.key)) key).map (origin.brought + ·) := by
    funext key
    have lanes := loaded.lanes key
    rw [silent, List.flatMap_nil, List.append_nil] at lanes
    rw [KeyQueue.idleLane, if_pos (loaded.unmarked key), lanes]
  have signals : s.channel.held.map (Signal.callsUp q) = (jobs.map (·.key)).map .inl := by
    rw [woken, List.map_map, List.map_map]
    rfl
  constructor
  · have listed : (inTurn jobs origin.brought).filter (· < origin.brought + jobs.length) =
        inTurn jobs origin.brought := by
      rw [List.filter_eq_self, inTurn]
      intro n member
      obtain ⟨i, place, rfl⟩ := List.mem_map.mp member
      have inside := mem_turns.mp place
      rw [List.length_map] at inside
      simpa using inside
    rw [outlook_of_idle _ _ _ rfl rfl rfl, signals, idle, lanesOf_map, roundRobin_map,
      roundRobin_places, List.filter_append]
    exact congrArg _ listed
  · intro key waits
    have some_waits : q.idleLane key ≠ [] := fun nothing => waits (by rw [nothing, List.filter_nil])
    rw [idle, ne_eq, List.map_eq_nil_iff] at some_waits
    obtain ⟨i, place⟩ := List.exists_mem_of_ne_nil _ some_waits
    have present := List.mem_of_getElem? (mem_placesOf.mp place)
    obtain ⟨job, member, same⟩ := List.mem_map.mp present
    refine List.mem_append_right _ ?_
    rw [woken]
    exact List.mem_map.mpr ⟨job, member, by rw [same]⟩

end Coordinator

end KeyedJobs
