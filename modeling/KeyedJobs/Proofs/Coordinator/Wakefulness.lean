import KeyedJobs.Proofs.Coordinator.Custody

/-! # No job is stranded

A worker throws a wake signal away when the key is active. Still, as long as the channel is open,
every key whose jobs wait while none is handed out has a wake signal under way: in the channel, with
a worker that has yet to look at the queue, or with a call that pushed a job and has yet to send it.
-/

namespace KeyedJobs

/-- Whether the worker has a wake signal for the key and has not yet looked at the queue. -/
def Worker.wakes (key : String) : Worker → Nat
  | .activating other => if other = key then 1 else 0
  | _ => 0

def Signal.wakes (key : String) : Signal → Nat
  | .wake other => if other = key then 1 else 0
  | .resume _ => 0

/-- Whether the call has pushed a job of the key and not yet woken a worker. -/
def Stage.wakes (key : String) : Stage → Nat
  | .admitting other | .waking other => if other = key then 1 else 0
  | _ => 0

namespace Coordinator

variable {config : Config} {s t : Coordinator} {q q' : KeyQueue Ticket} {m : Move}

/-- How many wake signals for the key are under way. -/
def wakes (s : Coordinator) (key : String) : Nat :=
  tally (Signal.wakes key) s.channel.held + tally (Worker.wakes key) s.workers +
    tally (Stage.wakes key) s.calls

/-- No key idles that no signal is under way for. -/
def Awake (s : Coordinator) (q : KeyQueue Ticket) : Prop :=
  s.channel.closed = false → ∀ key, q.Idles key → 0 < s.wakes key

theorem wakes_setWorker {i : Nat} {old : Worker} (found : s.workers[i]? = some old) (new : Worker)
    (key : String) :
    (s.setWorker i new).wakes key + old.wakes key = s.wakes key + new.wakes key := by
  have placed := tally_set (Worker.wakes key) found new
  simp only [wakes, setWorker]
  omega

theorem wakes_setCall {i : Nat} {old : Stage} (found : s.calls[i]? = some old) (new : Stage)
    (key : String) : (s.setCall i new).wakes key + old.wakes key = s.wakes key + new.wakes key := by
  have placed := tally_set (Stage.wakes key) found new
  simp only [wakes, setCall]
  omega

/-- A worker only gives a wake signal up for a key that does not idle, then or afterwards. -/
theorem wakes_of_workerStep {old new : Worker} (step : WorkerStep s q old new t q') {key : String}
    (idles : q'.Idles key) :
    q.Idles key ∧ tally (Signal.wakes key) s.channel.held + old.wakes key ≤
      tally (Signal.wakes key) t.channel.held + new.wakes key := by
  cases step with
  | takeWake front | takeResume front =>
      refine ⟨idles, ?_⟩
      simp only [front, tally_cons, Signal.wakes, Worker.wakes]
      omega
  | @activate active _ _ taken =>
      refine ⟨KeyQueue.idles_tryActivate taken idles, ?_⟩
      have apart : active ≠ key := by
        rintro rfl
        obtain ⟨line, found, inactive, -⟩ := idles
        have marked := KeyQueue.mark_of_line? found
        rw [KeyQueue.mark_tryActivate taken, inactive, if_pos rfl] at marked
        cases marked
      simp only [Worker.wakes, if_neg apart]
      omega
  | @ignoreWake active idle =>
      refine ⟨idles, ?_⟩
      have apart : active ≠ key := by
        rintro rfl
        exact (KeyQueue.tryActivate_eq_none idle).2 idles
      simp only [Worker.wakes, if_neg apart]
      omega
  | handOver released =>
      refine ⟨KeyQueue.idles_release released idles, ?_⟩
      simp only [Worker.wakes]
      omega
  | closeLine _ released =>
      refine ⟨KeyQueue.idles_release released idles, ?_⟩
      simp only [Worker.wakes]
      omega
  | sendOn next done opened =>
      refine ⟨idles, ?_⟩
      simp only [tally_append, tally_cons, tally_nil, Signal.wakes, Worker.wakes]
      omega
  | leave | beginDrive | drive | endDrive | refuse | shed | drop | count | finish =>
      refine ⟨idles, ?_⟩
      simp only [Worker.wakes, note, countResolved, adjust]
      omega

/-- A call that makes a key idle has a wake signal for it, and while the channel is open it keeps
the signal until it is sent. -/
theorem wakes_of_callStep (custody : Custody s q) {old new : Stage}
    (step : CallStep s q old new t q') (opened : t.channel.closed = false) {key : String}
    (idles : q'.Idles key) :
    0 < new.wakes key ∨ q.Idles key ∧ tally (Signal.wakes key) s.channel.held + old.wakes key ≤
      tally (Signal.wakes key) t.channel.held + new.wakes key := by
  cases step with
  | push pushed =>
      rcases KeyQueue.idles_push pushed idles with rfl | before
      · exact .inl (by simp [Stage.wakes])
      · refine .inr ⟨before, ?_⟩
        simp only [Stage.wakes, note]
        omega
  | wake other =>
      refine .inr ⟨idles, ?_⟩
      simp only [tally_append, tally_cons, tally_nil, Signal.wakes, Stage.wakes]
      omega
  | wakeNobody other log closed => simp [closed] at opened
  | hangUp => cases opened
  | discard => exact absurd idles (custody.formed.not_idles_discardWaiting key)
  | _ =>
      refine .inr ⟨idles, ?_⟩
      simp only [Stage.wakes, note, countResolved, adjust]
      omega

theorem Awake.of_transition (awake : Awake s q) (custody : Custody s q)
    (move : Transition s q m t q') : Awake t q' := by
  intro opened key idles
  cases move with
  | @worker i old new t q' found step =>
      obtain ⟨before, kept⟩ := wakes_of_workerStep step idles
      have positive := awake (channel_of_workerStep step ▸ opened) key before
      have moved := wakes_setWorker (workers_of_workerStep step ▸ found) new key
      simp only [wakes, calls_of_workerStep step, workers_of_workerStep step] at positive moved ⊢
      omega
  | @call i old new t q' found step =>
      have moved := wakes_setCall (calls_of_callStep step ▸ found) new key
      rcases wakes_of_callStep custody step opened idles with woken | ⟨before, kept⟩
      · have counted := le_tally (Stage.wakes key) (List.mem_of_getElem? found)
        simp only [wakes, calls_of_callStep step] at moved ⊢
        omega
      · have positive := awake (opened_of_callStep step opened) key before
        simp only [wakes, calls_of_callStep step, workers_of_callStep step] at positive moved ⊢
        omega
  | enter request =>
      have positive := awake opened key idles
      simp only [wakes, tally_append] at positive ⊢
      omega
  | exit found =>
      have positive := awake opened key idles
      have erased := tally_eraseIdx (Stage.wakes key) found
      simp only [wakes, Stage.wakes] at positive erased ⊢
      omega
  | resolve | elapse => exact awake opened key idles
  | abandon => cases opened

theorem Awake.of_fresh (config : Config) : Awake (fresh config) .empty := by
  rintro - key ⟨_, found, -⟩
  cases found

theorem Arises.awake (arises : Arises config s) : ∃ q, Custody s q ∧ Awake s q :=
  arises.induct (.of_fresh config) fun _ custody awake move => awake.of_transition custody move

/-- Where a wake signal for the key is, in the channel, with a worker or with a call. -/
def Called (s : Coordinator) (key : String) : Prop :=
  .wake key ∈ s.channel.held ∨ .activating key ∈ s.workers ∨
    .admitting key ∈ s.calls ∨ .waking key ∈ s.calls

theorem called_of_wakes {key : String} (woken : 0 < s.wakes key) : s.Called key := by
  unfold wakes at woken
  by_cases inChannel : 0 < tally (Signal.wakes key) s.channel.held
  · obtain ⟨signal, member, carries⟩ := exists_of_tally_pos inChannel
    cases signal with
    | wake other =>
        obtain rfl : other = key := of_one_pos carries
        exact .inl member
    | resume => simp [Signal.wakes] at carries
  · by_cases withWorker : 0 < tally (Worker.wakes key) s.workers
    · obtain ⟨worker, member, carries⟩ := exists_of_tally_pos withWorker
      cases worker with
      | activating other =>
          obtain rfl : other = key := of_one_pos carries
          exact .inr (.inl member)
      | _ => simp [Worker.wakes] at carries
    · have withCall : 0 < tally (Stage.wakes key) s.calls := by omega
      obtain ⟨stage, member, carries⟩ := exists_of_tally_pos withCall
      cases stage with
      | admitting other =>
          obtain rfl : other = key := of_one_pos carries
          exact .inr (.inr (.inl member))
      | waking other =>
          obtain rfl : other = key := of_one_pos carries
          exact .inr (.inr (.inr member))
      | _ => simp [Stage.wakes] at carries

/-- Every key with waiting jobs is attended to: its line is active and one job of the key is with a
worker or on its way to one, or a wake signal for the key is under way. -/
def Attended (s : Coordinator) (q : KeyQueue Ticket) : Prop :=
  ∀ key line, q.line? key = some line → line.waiting ≠ [] →
    if line.active then s.holders key = 1 else s.Called key

/-- Nothing goes on: no signal is in the channel, every worker is about to receive one, and no call
is enqueueing. -/
structure Quiet (s : Coordinator) : Prop where
  channel : s.channel.held = []
  workers : ∀ worker ∈ s.workers, worker = .receiving
  calls : ∀ stage ∈ s.calls, stage.enqueues = false

theorem Quiet.holders (quiet : Quiet s) (key : String) : s.holders key = 0 := by
  have workers : tally (Worker.holds key) s.workers = 0 := by
    rw [tally_eq_zero]
    intro worker member
    rw [quiet.workers worker member]
    rfl
  rw [Coordinator.holders, workers, quiet.channel, tally_nil]

theorem Quiet.not_called (quiet : Quiet s) (key : String) : ¬ s.Called key := by
  rintro (sent | received | pushed | pushed)
  · rw [quiet.channel] at sent
    cases sent
  · cases quiet.workers _ received
  · cases quiet.calls _ pushed
  · cases quiet.calls _ pushed

theorem Custody.attended (custody : Custody s q) (awake : Awake s q)
    (opened : s.channel.closed = false) : Attended s q := by
  intro key line found waits
  cases active : line.active with
  | true =>
      have marked := KeyQueue.mark_of_line? found
      rw [active, if_pos rfl] at marked
      have fewer := custody.exclusive key
      have more := custody.marked opened key
      simp only [if_true]
      omega
  | false =>
      rw [if_neg Bool.false_ne_true]
      exact called_of_wakes (awake opened key ⟨line, found, active, waits⟩)

theorem Custody.lines_of_quiet (custody : Custody s q) (awake : Awake s q)
    (opened : s.channel.closed = false) (quiet : Quiet s) : q.lines = [] := by
  apply custody.formed.lines_eq_nil
  · intro key
    have more := custody.marked opened key
    rw [quiet.holders key] at more
    omega
  · intro key idles
    exact quiet.not_called key (called_of_wakes (awake opened key idles))

/-- As long as the channel is open, no admitted job is stranded. Once nothing goes on, the queue is
empty. -/
theorem attended_of_arises (arises : Arises config s) (opened : s.channel.closed = false) :
    ∃ q, s.queue = .sound q ∧ Attended s q ∧ (Quiet s → q.lines = []) := by
  obtain ⟨q, custody, awake⟩ := arises.awake
  exact ⟨q, custody.sound, custody.attended awake opened, custody.lines_of_quiet awake opened⟩

/-- A job is pushed, and the call that brought it has yet to wake a worker. -/
theorem attended_of_pushed_job :
    let job := Job.new "A" fun _ => .writes []
    let s := (fresh (.default .single)).follow [.begin (.enqueue job), .call 0, .call 0]
    (Arises (.default .single) s ∧ s.channel.closed = false) ∧
      ∃ q, s.queue = .sound q ∧ Attended s q ∧ (Quiet s → q.lines = []) := by
  intro job s
  have arises : Arises (.default .single) s := .follow rfl (by decide)
  exact ⟨⟨arises, rfl⟩, attended_of_arises arises rfl⟩

end Coordinator

end KeyedJobs
