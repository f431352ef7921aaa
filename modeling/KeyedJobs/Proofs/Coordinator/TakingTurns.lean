import KeyedJobs.Proofs.Coordinator.Loading
import KeyedJobs.Proofs.Coordinator.WindingDown

/-! # Keys take turns

One worker serves the keys in rounds. Whatever happens once the jobs are lined up, the line-up stays
as it is: jobs that are enqueued later come behind, and a shutdown that drains the queue hangs up
only after the last of the listed jobs. So they are driven in the order of their turns, and none is
left out unless a drive never ends.
-/

namespace KeyedJobs

/-- The job that the worker drives or is about to drive. -/
def Worker.inHand : Worker → List Nat
  | .holding ticket | .driving ticket _ => [ticket.serial]
  | _ => []

namespace Coordinator

variable {config : Config} {origin s t : Coordinator} {q q' : KeyQueue Ticket} {m : Move}
  {jobs later : List Job} {worker : Worker} {limit : Nat} {order : List Nat}

/-- The jobs that have been driven to their ends since an earlier state. -/
def drivenSince (s t : Coordinator) : List Nat := t.driven.drop s.driven.length

/-- The jobs that workers drive or are about to drive. -/
def inHand (s : Coordinator) : List Nat := s.workers.flatMap Worker.inHand

/-- Whether the move lets every admitted job be driven: the owner does not let go, and no call shuts
down to discard the jobs that wait. -/
def isSparing (s : Coordinator) : Move → Bool
  | .begin .shutdown | .begin .waitUntilFinished => s.shutdownPolicy = .drain
  | .abandon => false
  | _ => true

/-- What is certain while the only worker serves the listed jobs, which are those below the limit.
-/
structure Serving (limit : Nat) (order : List Nat) (s : Coordinator) (q : KeyQueue Ticket)
    (worker : Worker) : Prop where
  kept : Kept s q
  alone : s.workers = [worker]
  linedUp : LinedUp (· < limit) order s q worker
  closed : s.channel.closed = true ∨ .hangingUp ∈ s.calls → s.driven.filter (· < limit) = order
  drains : s.isLeaving = true → s.shutdownPolicy = .drain
  brought : limit ≤ s.brought
  later : ∀ stage ∈ s.calls, ∀ ticket ∈ stage.tickets, limit ≤ ticket.serial

theorem driven_of_transition (move : Transition s q m t q') : s.driven <+: t.driven := by
  obtain ⟨gone, come, events, -, -, noted⟩ := move.shift
  rw [driven, driven, noted, List.flatMap_append]
  exact List.prefix_append _ _

theorem driven_of_done (done : s.driven.filter (· < limit) = order) (more : s.driven <+: t.driven)
    (within : t.driven.filter (· < limit) <+: order) : t.driven.filter (· < limit) = order := by
  refine within.eq_of_length (Nat.le_antisymm within.length_le ?_)
  rw [← done]
  exact (more.filter _).length_le

theorem outlook_of_placed (formed : q.WellFormed) (alone : s.workers = [worker])
    (empty : s.placed q = []) : s.outlook q worker = [] := by
  simp only [placed, List.append_eq_nil_iff, KeyQueue.serials, List.map_eq_nil_iff, taken, resumed,
    List.flatMap_eq_nil_iff, alone, List.mem_singleton, forall_eq] at empty
  obtain ⟨⟨⟨waiting, signals⟩, taken⟩, -⟩ := empty
  refine outlook_eq_nil ?_ ?_ ?_ ?_
  · intro key
    rw [KeyQueue.lane, List.map_eq_nil_iff, List.eq_nil_iff_forall_not_mem]
    intro ticket waits
    have present := formed.mem_waitingOn.mp waits
    rw [waiting] at present
    cases present
  · intro ticket member
    rcases List.mem_append.mp member with front | held
    · cases worker with
      | holding => cases taken
      | activating => simp [Worker.front] at front
      | _ => cases front
    · cases signals _ held
  · cases worker with
    | driving => cases taken
    | _ => rfl
  · cases worker with
    | driving | releasing | resuming => cases taken
    | _ => rfl

theorem Serving.of_worker (serving : Serving limit order s q worker) {i : Nat} {old new : Worker}
    (found : s.workers[i]? = some old) (step : WorkerStep s q old new t q')
    (move : Transition s q m (t.setWorker i new) q') :
    Serving limit order (t.setWorker i new) q' new := by
  have alone := serving.alone
  obtain ⟨rfl, rfl⟩ : i = 0 ∧ worker = old := by
    rw [alone] at found
    cases i with
    | zero => exact ⟨rfl, Option.some.inj found⟩
    | succ i => simp at found
  have calls : (t.setWorker 0 new).calls = s.calls := (calls_of_workerStep step : _)
  have linedUp : LinedUp (· < limit) order (t.setWorker 0 new) q' new := by
    have after := serving.linedUp.of_workerStep serving.kept.sound.custody alone step fun closed =>
      serving.closed (.inl closed)
    exact ⟨after.order, after.called⟩
  constructor
  · exact serving.kept.of_transition move
  · rw [setWorker, workers_of_workerStep step, alone, List.set_cons_zero]
  · exact linedUp
  · intro late
    rw [calls, setWorker, channel_of_workerStep step] at late
    exact driven_of_done (serving.closed late) (driven_of_transition move) linedUp.driven
  · rw [shutdownPolicy_of_transition move]
    intro leaving
    rw [isLeaving, calls, setWorker, shutDown_of_workerStep step] at leaving
    exact serving.drains leaving
  · rw [setWorker, brought_of_workerStep step]
    exact serving.brought
  · rw [calls]
    exact serving.later

theorem tickets_of_step {old new : Stage} (step : CallStep s q old new t q') {ticket : Ticket}
    (member : ticket ∈ new.tickets) : ticket ∈ old.tickets := by
  cases step with
  | raise | refuse => exact member
  | passMark finishing => cases finishing <;> cases member
  | allDropped onward => cases onward using onward_cases <;> cases member
  | closeQueue finishing =>
      cases policy : s.shutdownPolicy <;> cases finishing <;> rw [policy] at member <;> cases member
  | _ => cases member

theorem Serving.of_call (serving : Serving limit order s q worker) {i : Nat} {old new : Stage}
    (found : s.calls[i]? = some old) (step : CallStep s q old new t q')
    (move : Transition s q m (t.setCall i new) q') :
    Serving limit order (t.setCall i new) q' worker := by
  have present := List.mem_of_getElem? found
  have sound := serving.kept.sound
  have calls : (t.setCall i new).calls = s.calls.set i new := by
    rw [setCall, calls_of_callStep step]
  have late : ∀ ticket, old = .pushing ticket → decide (ticket.serial < limit) = false := by
    rintro ticket rfl
    have after := serving.later _ present ticket List.mem_cons_self
    simpa using after
  have spares : ∀ finishing, old ≠ .discarding finishing := by
    rintro finishing rfl
    have drains := serving.drains (leaving_iff.mpr (.inl (sound.guarded.marked _ present rfl)))
    rw [(serving.kept.discarding _ present).2] at drains
    cases drains
  have linedUp : LinedUp (· < limit) order (t.setCall i new) q' worker := by
    have after := serving.linedUp.of_callStep step late spares
    exact ⟨after.order, after.called⟩
  have kept : s.driven.filter (· < limit) = order →
      (t.setCall i new).driven.filter (· < limit) = order := fun done =>
    driven_of_done done (driven_of_transition move) linedUp.driven
  constructor
  · exact serving.kept.of_transition move
  · rw [setCall, workers_of_callStep step]
    exact serving.alone
  · exact linedUp
  · rintro (closed | hanging)
    · rcases closed_of_callStep step closed with before | rfl
      · exact kept (serving.closed (.inl before))
      · exact kept (serving.closed (.inr present))
    · rw [calls] at hanging
      rcases List.mem_or_eq_of_mem_set hanging with before | now
      · exact kept (serving.closed (.inr before))
      · -- The gauge is at zero, so no listed job is in any place any more.
        obtain ⟨-, idle⟩ := hanging_of_callStep step now.symm
        have shown := sound.ledger.incomplete sound.placed
        have empty : s.placed q = [] := List.length_eq_zero_iff.mp (by omega)
        have order := serving.linedUp.order
        rw [outlook_of_placed sound.custody.formed serving.alone empty, List.append_nil] at order
        exact kept order
  · rw [shutdownPolicy_of_transition move]
    exact fun leaving => serving.drains (leaving_of_callStep found step leaving)
  · rw [setCall, brought_of_callStep step]
    exact serving.brought
  · intro stage member ticket has
    rw [calls] at member
    rcases List.mem_or_eq_of_mem_set member with before | rfl
    · exact serving.later stage before ticket has
    · exact serving.later _ present ticket (tickets_of_step step has)

theorem Serving.aside (serving : Serving limit order s q worker) (kept : Kept t q)
    (workers : t.workers = s.workers) (channel : t.channel = s.channel)
    (history : t.history = s.history) (brought : s.brought ≤ t.brought)
    (hanging : .hangingUp ∈ t.calls → .hangingUp ∈ s.calls)
    (drains : t.isLeaving = true → t.shutdownPolicy = .drain)
    (later : ∀ stage ∈ t.calls, ∀ ticket ∈ stage.tickets, limit ≤ ticket.serial) :
    Serving limit order t q worker := by
  have driven : t.driven = s.driven := by rw [Coordinator.driven, history, Coordinator.driven]
  constructor
  · exact kept
  · exact workers.trans serving.alone
  · refine ⟨?_, ?_⟩
    · rw [outlook, lanes, channel, driven]
      exact serving.linedUp.order
    · rw [channel]
      exact serving.linedUp.called
  · rw [channel, driven]
    exact fun late => serving.closed (late.imp_right hanging)
  · exact drains
  · exact Nat.le_trans serving.brought brought
  · exact later

theorem Serving.of_transition (serving : Serving limit order s q worker)
    (spares : s.isSparing m = true) (move : Transition s q m t q') :
    ∃ worker', Serving limit order t q' worker' := by
  have kept := serving.kept.of_transition move
  have drains : t.isLeaving = true → t.shutdownPolicy = .drain := by
    rw [shutdownPolicy_of_transition move]
    intro leaving
    rcases leaving_of_transition move leaving with before | rfl | rfl
    · exact serving.drains before
    · simpa [isSparing] using spares
    · simpa [isSparing] using spares
  cases move with
  | worker found step => exact ⟨_, serving.of_worker found step (.worker found step)⟩
  | call found step => exact ⟨_, serving.of_call found step (.call found step)⟩
  | abandon => cases spares
  | resolve | elapse =>
      exact ⟨_, serving.aside kept rfl rfl rfl (Nat.le_refl _) id drains serving.later⟩
  | exit found =>
      exact ⟨_, serving.aside kept rfl rfl rfl (Nat.le_refl _) List.mem_of_mem_eraseIdx drains
        fun stage member => serving.later stage (List.mem_of_mem_eraseIdx member)⟩
  | enter request =>
      refine ⟨_, serving.aside kept rfl rfl rfl (Nat.le_add_right _ _) ?_ drains ?_⟩
      · intro hanging
        rcases List.mem_append.mp hanging with before | now
        · exact before
        · have passed := s.passed_firstStage request
          rw [← List.mem_singleton.mp now] at passed
          cases passed
      · intro stage member ticket has
        rcases List.mem_append.mp member with before | now
        · exact serving.later stage before ticket has
        · rw [List.mem_singleton.mp now] at has
          cases request with
          | enqueue job =>
              rw [List.mem_singleton.mp has]
              exact serving.brought
          | waitUntilIdle timeout =>
              simp only [firstStage] at has
              split at has <;> cases has
          | _ => cases has

theorem Serving.move (serving : Serving limit order s q worker) (possible : s.canMove m = true)
    (spares : s.isSparing m = true) :
    ∃ q' worker', Transition s q m (s.move m) q' ∧ Serving limit order (s.move m) q' worker' := by
  obtain ⟨q', move, -⟩ := serving.kept.move possible
  obtain ⟨worker', after⟩ := serving.of_transition spares move
  exact ⟨q', worker', move, after⟩

theorem Serving.done_of_rest (serving : Serving limit order s q worker)
    (rests : s.canMove (.worker 0) = false) (drives : worker.drives = false) :
    s.driven.filter (· < limit) = order := by
  have stays : s.canStepWorker worker = false := by
    simpa [canMove, serving.alone] using rests
  have gone : worker.works = false → s.driven.filter (· < limit) = order := by
    intro idle
    refine serving.closed (.inl ?_)
    by_contra opened
    have works := serving.kept.sound.guarded.working (by simpa using opened) worker
      (by simp [serving.alone])
    rw [idle] at works
    cases works
  cases worker with
  | receiving =>
      have empty : s.channel.held = [] := by
        simp only [canStepWorker, hasSignal, Bool.or_eq_false_iff, Bool.not_eq_false',
          List.isEmpty_iff] at stays
        exact stays.1
      have unchanged := serving.linedUp.order
      rw [outlook_of_idle _ _ _ rfl rfl rfl, empty, List.map_nil, lanesOf, roundRobin_nil,
        List.append_nil] at unchanged
      exact unchanged
  | driving => cases drives
  | shedding | ended | crashed => exact gone rfl
  | activating | holding | releasing | resuming | counting => cases stays

theorem sparing_of_goesOn (s : Coordinator) (goesOn : m.goesOn = true) : s.isSparing m = true := by
  cases m with
  | begin request => cases goesOn
  | abandon => cases goesOn
  | _ => rfl

/-- However the threads go on, no more is left to do than before. If the worker no longer drives the
job that it drove, less is left. -/
theorem Serving.settles (serving : Serving limit order s q worker) (settles : Settles s t) :
    ∃ q' worker', Serving limit order t q' worker' ∧ (t.effort q' < s.effort q ∨
      t.effort q' = s.effort q ∧ ∀ i ticket, s.Drives i ticket → t.Drives i ticket) := by
  induction settles with
  | refl => exact ⟨q, worker, serving, .inr ⟨rfl, fun _ _ drives => drives⟩⟩
  | @step t m _ possible goesOn ih =>
      obtain ⟨q₁, worker₁, going, left⟩ := ih
      obtain ⟨q', worker', move, after⟩ := going.move possible (t.sparing_of_goesOn goesOn)
      refine ⟨q', worker', after, ?_⟩
      rcases effort_of_transition going.kept.sound.custody move goesOn with less | ⟨same, kept⟩
      · exact .inl (by omega)
      · rw [same]
        exact left.imp_right fun before =>
          ⟨before.1, fun i ticket drives => kept i ticket (before.2 i ticket drives)⟩

/-- The threads under way can bring it about that all listed jobs have been driven, or the worker
drives a job without end. -/
theorem Serving.finishes (serving : Serving limit order s q worker) :
    ∃ t, Settles s t ∧ (t.driven.filter (· < limit) = order ∨ ∃ ticket, t.Endless 0 ticket) := by
  induction effort : s.effort q using Nat.strongRecOn generalizing s q worker with
  | ind left ih =>
      have found : s.workers[0]? = some worker := by simp [serving.alone]
      cases drives : worker.drives with
      | true =>
          obtain ⟨ticket, drive, rfl⟩ : ∃ ticket drive, worker = .driving ticket drive := by
            cases worker with
            | driving ticket drive => exact ⟨ticket, drive, rfl⟩
            | _ => cases drives
          by_cases endless : s.Endless 0 ticket
          · exact ⟨s, .refl, .inr ⟨ticket, endless⟩⟩
          · obtain ⟨t, settles, ended⟩ : ∃ t, Settles s t ∧ ¬ t.Drives 0 ticket := by
              simpa [Endless] using endless
            obtain ⟨q', worker', going, less | ⟨-, kept⟩⟩ := serving.settles settles
            · obtain ⟨u, settles', done⟩ := ih _ (effort ▸ less) going rfl
              exact ⟨u, settles.trans settles', done⟩
            · exact absurd (kept 0 ticket ⟨drive, found⟩) ended
      | false =>
          cases possible : s.canMove (.worker 0) with
          | false => exact ⟨s, .refl, .inl (serving.done_of_rest possible drives)⟩
          | true =>
              obtain ⟨q', worker', move, going⟩ := serving.move possible rfl
              have less := effort_of_worker serving.kept.sound.custody found drives move
              obtain ⟨u, settles', done⟩ := ih _ (effort ▸ less) going rfl
              exact ⟨u, (Settles.step _ .refl possible rfl).trans settles', done⟩

theorem inHand_prefix_outlook (s : Coordinator) (q : KeyQueue Ticket) (worker : Worker) :
    worker.inHand <+: s.outlook q worker := by
  cases worker with
  | holding ticket =>
      simp only [outlook, lanes, Worker.front, List.cons_append, List.map_cons, Signal.callsUp,
        lanesOf, roundRobin_cons_cons]
      exact List.prefix_append [ticket.serial] _
  | driving ticket drive => exact List.prefix_append _ _
  | _ => exact List.nil_prefix

theorem Stretch.serving (stretch : Stretch isSparing s later t)
    (serving : Serving limit order s q worker) :
    ∃ q' worker', Serving limit order t q' worker' := by
  induction stretch with
  | refl => exact ⟨q, worker, serving⟩
  | step m _ possible spares ih =>
      obtain ⟨q₁, worker₁, going⟩ := ih
      obtain ⟨q', worker', -, after⟩ := going.move possible spares
      exact ⟨q', worker', after⟩

theorem Settles.reaches (settles : Settles s t) : Reaches s t := by
  induction settles with
  | refl => exact .refl s
  | step m _ possible _ ih => exact ih.step m possible

theorem driven_of_reaches (arises : Arises config s) (reaches : Reaches s t) :
    s.driven <+: t.driven := by
  induction reaches with
  | refl => exact List.prefix_refl _
  | step m reached possible ih =>
      obtain ⟨q, custody⟩ := (arises.reaches reached).custody
      obtain ⟨q', move⟩ := custody.transition possible
      exact ih.trans (driven_of_transition move)

theorem driven_eq_append (more : s.driven <+: t.driven) :
    t.driven = s.driven ++ s.drivenSince t :=
  (List.prefix_iff_eq_append.mp more).symm

theorem drivenSince_of_done {listed : Nat → Bool} (more : s.driven <+: t.driven)
    (done : t.driven.filter listed = s.driven.filter listed ++ order) :
    (s.drivenSince t).filter listed = order := by
  rw [driven_eq_append more, List.filter_append] at done
  exact List.append_cancel_left done

theorem Serving.leads
    (serving : Serving limit (s.driven.filter (· < limit) ++ order) t q worker)
    (more : s.driven <+: t.driven) :
    (s.drivenSince t ++ t.inHand).filter (· < limit) <+: order := by
  have hand : t.inHand = worker.inHand := by simp [inHand, serving.alone]
  have leads : (t.driven ++ t.inHand).filter (· < limit) <+:
      s.driven.filter (· < limit) ++ order := by
    rw [← serving.linedUp.order, hand]
    exact ((List.prefix_append_right_inj _).mpr (inHand_prefix_outlook t q worker)).filter _
  rwa [driven_eq_append more, List.append_assoc, List.filter_append,
    List.prefix_append_right_inj] at leads

theorem Serving.length_inHand (serving : Serving limit order s q worker) :
    s.inHand.length ≤ 1 := by
  rw [inHand, serving.alone, List.flatMap_singleton]
  cases worker <;> simp [Worker.inHand]

theorem driven_of_sooner {first i j : Nat} {past now : List Nat}
    (leads : (past ++ now).filter (· < first + jobs.length) <+: inTurn jobs first)
    (single : now.length ≤ 1) (inside : i < jobs.length) (inside' : j < jobs.length)
    (sooner : Sooner (jobs.map (·.key)) i j) (reached : first + j ∈ past ++ now) :
    first + i ∈ past := by
  have increasing : (inTurn jobs first).Pairwise fun m n =>
      Sooner (jobs.map (·.key)) (m - first) (n - first) := by
    rw [inTurn, List.pairwise_map]
    simpa only [Nat.add_sub_cancel_left] using pairwise_turns (jobs.map (·.key))
  have member : first + i ∈ inTurn jobs first :=
    List.mem_map_of_mem (mem_turns.mpr (by rwa [List.length_map]))
  have single : (now.filter (· < first + jobs.length)).length ≤ 1 :=
    Nat.le_trans (List.length_filter_le _ _) single
  have listed : first + j ∈ (past ++ now).filter (· < first + jobs.length) :=
    List.mem_filter.mpr ⟨reached, by simpa using inside'⟩
  rw [List.filter_append] at leads listed
  exact List.mem_of_mem_filter (mem_of_sooner (fun _ _ sooner => sooner.asymm) increasing leads
    single listed member (by simpa only [Nat.add_sub_cancel_left] using sooner))

theorem Loaded.serving (loaded : Loaded origin jobs s q) (kept : Kept s q)
    (quiet : s.isQuiet = true) :
    Serving (origin.brought + jobs.length)
      (s.driven.filter (· < origin.brought + jobs.length) ++ inTurn jobs origin.brought) s q
      .receiving where
  kept := kept
  alone := loaded.workers
  linedUp := loaded.linedUp quiet
  closed late := by
    rcases late with closed | hanging
    · rw [loaded.opened] at closed
      cases closed
    · have unpassed := not_passed kept.sound.guarded loaded.staying hanging
      cases unpassed
  drains leaving := by
    rw [loaded.staying] at leaving
    cases leaving
  brought := Nat.le_of_eq loaded.brought.symm
  later stage member ticket has := by
    have idle := quiet_iff.mp quiet stage member
    cases stage with
    | checking | pushing | refusing => cases idle
    | _ => cases has

/-- One worker serves the keys in rounds from a state in which jobs are lined up. The jobs are
numbered from the first one on, and jobs that are brought later do not count. -/
structure TakesTurns (jobs : List Job) (first : Nat) (s t : Coordinator) : Prop where
  /-- The jobs that have been driven and then the one in hand lead up the order of turns. -/
  order : (s.drivenSince t ++ t.inHand).filter (· < first + jobs.length) <+: inTurn jobs first
  /-- No key runs its next job before every key that still has a job of an earlier round, or one of
  the same round and a place before it, has run that job. -/
  rounds : ∀ i j, i < jobs.length → j < jobs.length → Sooner (jobs.map (·.key)) i j →
    first + j ∈ s.drivenSince t ++ t.inHand → first + i ∈ s.drivenSince t
  /-- A worker with nothing to do has driven all of them, unless it waits in a drive. -/
  rest : t.canMove (.worker 0) = false → (∀ ticket, ¬ t.Drives 0 ticket) →
    (s.drivenSince t).filter (· < first + jobs.length) = inTurn jobs first
  /-- All of them can be driven, unless some drive neither returns nor panics. -/
  finishes : ∃ u, Settles t u ∧
    ((s.drivenSince u).filter (· < first + jobs.length) = inTurn jobs first ∨
      ∃ ticket, u.Endless 0 ticket)

/-- However many jobs are enqueued on a resting coordinator before its only worker receives a
signal, the worker drives them in rounds: first the first job of each key, then the second ones, and
in each round the keys go in the order in which the jobs brought them. -/
theorem takesTurns_of_loading (arises : Arises config origin) (single : config.workers = 1)
    (resting : Resting origin) (loading : Stretch isLoading origin jobs s)
    (loaded : s.isQuiet = true) (serving : Stretch isSparing s later t) :
    TakesTurns jobs origin.brought s t := by
  have alone : origin.workers.length = 1 := by rw [arises.workers, single]; rfl
  obtain ⟨q, kept, lined⟩ := loading.loaded arises resting alone
  obtain ⟨q', worker, going⟩ := serving.serving (lined.serving kept loaded)
  have arises' := arises.reaches loading.reaches
  have more := driven_of_reaches arises' serving.reaches
  have leads := going.leads more
  constructor
  · exact leads
  · intro i j inside inside' sooner reached
    exact driven_of_sooner leads going.length_inHand inside inside' sooner reached
  · intro rests idle
    refine drivenSince_of_done more (going.done_of_rest rests ?_)
    cases worker with
    | driving ticket drive => exact absurd ⟨drive, by simp [going.alone]⟩ (idle ticket)
    | _ => rfl
  · obtain ⟨u, settles, done⟩ := going.finishes
    have further := driven_of_reaches (arises'.reaches serving.reaches) settles.reaches
    exact ⟨u, settles, done.imp_left (drivenSince_of_done (more.trans further))⟩

/-- Two jobs of one key and then one of another are enqueued. The first one has been driven, and the
worker goes on with the last one, whose key has not had its turn. -/
theorem takesTurns_of_three_jobs :
    let job := fun key => Job.new key fun _ => .writes []
    let enqueue := fun key => [Move.begin (.enqueue (job key)), .call 0, .call 0, .call 0, .call 0,
      .leave 0]
    let jobs := [job "A", job "A", job "B"]
    let moves := enqueue "A" ++ enqueue "A" ++ enqueue "B"
    let origin := fresh (.default .single)
    let s := origin.follow moves
    let t := s.follow (List.replicate 17 (.worker 0))
    (Arises (.default .single) origin ∧ (Config.default .single).workers = 1 ∧ Resting origin ∧
        Stretch isLoading origin jobs s ∧ s.isQuiet = true ∧ Stretch isSparing s [] t) ∧
      TakesTurns jobs origin.brought s t ∧ s.drivenSince t = [0] ∧ t.inHand = [2] := by
  intro job enqueue jobs moves origin s t
  have arises : Arises (.default .single) origin := ⟨_, rfl, .refl _⟩
  have resting : Resting origin := by
    refine ⟨⟨rfl, ?_, ?_⟩, rfl, rfl⟩
    · intro worker member
      exact List.eq_of_mem_replicate member
    · intro stage member
      cases member
  have possible : origin.canFollow moves = true := by decide
  have keeps : keepsTo isLoading origin moves = true := by decide
  have loading : Stretch isLoading origin jobs s := Stretch.refl.follow possible keeps
  have loaded : s.isQuiet = true := by decide
  have possible : s.canFollow (List.replicate 17 (.worker 0)) = true := by decide
  have keeps : keepsTo isSparing s (List.replicate 17 (.worker 0)) = true := by decide
  have serving : Stretch isSparing s [] t := Stretch.refl.follow possible keeps
  exact ⟨⟨arises, rfl, resting, loading, loaded, serving⟩,
    takesTurns_of_loading arises rfl resting loading loaded serving, by decide, by decide⟩

end Coordinator

end KeyedJobs
