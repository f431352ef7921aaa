import KeyedJobs.KeyQueue.Operation
import KeyedJobs.Proofs.KeyQueue.Waiting
import KeyedJobs.Proofs.Tally

/-! # The history of a queue

What a queue has answered to the operations so far fixes what it will answer. For each key the jobs
that were handed out and those that wait are, in order, the jobs that were accepted and not
discarded, and the activations of the key and its releases alternate. This holds of every sequence
of operations in which no release panics. Nothing is said about what happens after such a panic.
-/

namespace KeyedJobs

variable {α : Type}

/-- The third list is made of the first two, each of them in its order. -/
inductive Interleaves : List α → List α → List α → Prop where
  | nil : Interleaves [] [] []
  | left (x : α) {left right both : List α} (rest : Interleaves left right both) :
      Interleaves (x :: left) right (x :: both)
  | right (x : α) {left right both : List α} (rest : Interleaves left right both) :
      Interleaves left (x :: right) (x :: both)

theorem Interleaves.left_alone (list : List α) : Interleaves list [] list := by
  induction list with
  | nil => exact .nil
  | cons x rest ih => exact .left x ih

theorem Interleaves.right_alone (list : List α) : Interleaves [] list list := by
  induction list with
  | nil => exact .nil
  | cons x rest ih => exact .right x ih

theorem Interleaves.append {left right both left' right' both' : List α}
    (first : Interleaves left right both) (second : Interleaves left' right' both') :
    Interleaves (left ++ left') (right ++ right') (both ++ both') := by
  induction first with
  | nil => exact second
  | left x _ ih => exact .left x ih
  | right x _ ih => exact .right x ih

theorem Interleaves.length_eq {left right both : List α}
    (interleaves : Interleaves left right both) : both.length = left.length + right.length := by
  induction interleaves with
  | nil => rfl
  | left x _ ih => simp only [List.length_cons, ih, Nat.add_right_comm]
  | right x _ ih => simp only [List.length_cons, ih, Nat.add_assoc]

namespace KeyQueue

/-- An operation with what was answered to it. -/
abbrev Exchange (α : Type) := Operation α × Reply α

namespace Exchange

/-- The job that was accepted for the key, if one was. -/
def accepts (key : String) : Exchange α → List α
  | (.push other job, .accepted) => if other = key then [job] else []
  | _ => []

/-- The job that was handed out for the key, if one was. -/
def handsOut (key : String) : Exchange α → List α
  | (_, .handedOut other (some job)) => if other = key then [job] else []
  | _ => []

/-- The jobs of the key that were discarded. -/
def discards (key : String) : Exchange α → List α
  | (_, .discarded jobs) => (jobs.filter (·.1 = key)).map (·.2)
  | _ => []

end Exchange

/-- The queue after some exchanges, the last of them at the end. -/
inductive Remembers : List (Exchange α) → KeyQueue α → Prop where
  | begin : Remembers [] .empty
  | next {history : List (Exchange α)} {q q' : KeyQueue α} {operation : Operation α}
      {reply : Reply α} (remembers : Remembers history q)
      (answered : q.perform operation = .ok (reply, q')) :
      Remembers (history ++ [(operation, reply)]) q'

/-! ## One exchange -/

/-- What an exchange is and what it leaves of the queue. -/
inductive Answers (q : KeyQueue α) : Exchange α → KeyQueue α → Prop where
  | accept {key : String} {job : α} {q' : KeyQueue α} (pushed : q.push key job = .ok q') :
      Answers q (.push key job, .accepted) q'
  | refuse (key : String) (job : α) (closed : q.closed = true) :
      Answers q (.push key job, .refused key job) q
  | activate {key : String} {job : α} {q' : KeyQueue α}
      (taken : q.tryActivate key = (some job, q')) :
      Answers q (.tryActivate key, .handedOut key (some job)) q'
  | ignore (key : String) : Answers q (.tryActivate key, .handedOut key none) q
  | handOver {key : String} {job : α} {q' : KeyQueue α}
      (released : q.release key = .ok (some job, q')) :
      Answers q (.release key, .handedOut key (some job)) q'
  | letGo {key : String} {q' : KeyQueue α} (released : q.release key = .ok (none, q')) :
      Answers q (.release key, .handedOut key none) q'
  | close : Answers q (.close, .closed) q.close
  | discard : Answers q (.discardWaiting, .discarded q.allWaiting) q.discardWaiting.2

variable {history : List (Exchange α)} {q q' : KeyQueue α} {key : String} {operation : Operation α}
  {reply : Reply α} {exchange : Exchange α}

theorem answers_of_perform (answered : q.perform operation = .ok (reply, q')) :
    Answers q (operation, reply) q' := by
  cases operation with
  | push key job =>
      simp only [perform] at answered
      cases pushed : q.push key job with
      | ok after =>
          rw [pushed] at answered
          cases answered
          exact .accept pushed
      | error back =>
          obtain ⟨closed, rfl⟩ := push_eq_error pushed
          rw [pushed] at answered
          cases answered
          exact .refuse key _ closed
  | tryActivate key =>
      simp only [perform] at answered
      cases taken : q.tryActivate key with
      | mk job after =>
          rw [taken] at answered
          cases answered
          cases job with
          | some job => exact .activate taken
          | none =>
              obtain ⟨rfl, -⟩ := tryActivate_eq_none taken
              exact .ignore key
  | release key =>
      simp only [perform] at answered
      cases released : q.release key with
      | error fault =>
          rw [released] at answered
          cases answered
      | ok result =>
          obtain ⟨job, after⟩ := result
          rw [released] at answered
          cases answered
          cases job with
          | some job => exact .handOver released
          | none => exact .letGo released
  | close =>
      cases answered
      exact .close
  | discardWaiting =>
      cases answered
      exact .discard

theorem filter_waitingOf {lines : List (String × KeyLine α)} (key : String)
    (distinct : (lines.map (·.1)).Nodup) :
    ((waitingOf lines).filter (·.1 = key)).map (·.2) =
      ((lines.lookup key).map (·.waiting)).getD [] := by
  induction lines with
  | nil => rfl
  | cons head rest ih =>
      obtain ⟨present, line⟩ := head
      obtain ⟨absent, distinct⟩ := List.nodup_cons.mp distinct
      have below := ih distinct
      have split : waitingOf ((present, line) :: rest) =
          line.waiting.map (present, ·) ++ waitingOf rest := rfl
      rw [split, List.filter_append, List.map_append, below]
      by_cases same : key = present
      · subst same
        have gone : rest.lookup key = none := by
          cases found : rest.lookup key with
          | none => rfl
          | some other => exact absurd (mem_keys_of_lookup found) absent
        simp [gone, List.filter_map, Function.comp_def]
      · have apart : ¬ present = key := fun equal => same equal.symm
        have skipped : ((present, line) :: rest).lookup key = rest.lookup key := by
          rw [List.lookup_cons, beq_eq_false_iff_ne.mpr same]
        simp [skipped, apart, List.filter_map, Function.comp_def]

theorem WellFormed.filter_allWaiting (formed : q.WellFormed) (key : String) :
    (q.allWaiting.filter (·.1 = key)).map (·.2) = q.waitingOn key :=
  filter_waitingOf key formed.distinct

/-- Handing out takes from the front of the line, discarding takes all of it, and a push appends to
it. -/
theorem waitingOn_of_answers (formed : q.WellFormed) (answers : Answers q exchange q')
    (key : String) :
    exchange.handsOut key ++ exchange.discards key ++ q'.waitingOn key =
      q.waitingOn key ++ exchange.accepts key ∧
      (exchange.handsOut key = [] ∨ exchange.discards key = []) := by
  cases answers with
  | @accept other job q' pushed =>
      have moved : q'.waitingOn key = if key = other then _ else _ := waitingOn_push pushed
      by_cases same : other = key
      · subst same
        simp [Exchange.handsOut, Exchange.discards, Exchange.accepts, moved]
      · have apart : ¬ key = other := fun equal => same equal.symm
        simp [Exchange.handsOut, Exchange.discards, Exchange.accepts, moved, same, apart]
  | refuse other job closed => simp [Exchange.handsOut, Exchange.discards, Exchange.accepts]
  | @activate other job q' taken =>
      obtain ⟨own, others⟩ := waitingOn_tryActivate taken
      by_cases same : other = key
      · subst same
        simp [Exchange.handsOut, Exchange.discards, Exchange.accepts, own]
      · have spared := others key fun equal => same equal.symm
        simp [Exchange.handsOut, Exchange.discards, Exchange.accepts, same, spared]
  | ignore other => simp [Exchange.handsOut, Exchange.discards, Exchange.accepts]
  | @handOver other job q' released =>
      obtain ⟨own, others⟩ := waitingOn_release_some released
      by_cases same : other = key
      · subst same
        simp [Exchange.handsOut, Exchange.discards, Exchange.accepts, own]
      · have spared := others key fun equal => same equal.symm
        simp [Exchange.handsOut, Exchange.discards, Exchange.accepts, same, spared]
  | @letGo other q' released =>
      obtain ⟨-, others⟩ := waitingOn_release_none released
      simp [Exchange.handsOut, Exchange.discards, Exchange.accepts, others key]
  | close =>
      have kept : q.close.waitingOn key = q.waitingOn key := rfl
      simp [Exchange.handsOut, Exchange.discards, Exchange.accepts, kept]
  | discard =>
      have emptied := formed.waitingOn_discardWaiting key
      have jobs := formed.filter_allWaiting key
      simp only [Exchange.handsOut, Exchange.discards, Exchange.accepts, emptied, jobs]
      simp

theorem WellFormed.of_answers (formed : q.WellFormed) (answers : Answers q exchange q') :
    q'.WellFormed := by
  cases answers with
  | accept pushed => exact formed.push pushed
  | activate taken => exact formed.tryActivate taken
  | handOver released => exact formed.release released
  | letGo released => exact formed.release released
  | refuse | ignore => exact formed
  | close => exact ⟨formed.distinct, formed.inhabited⟩
  | discard => exact formed.discardWaiting

theorem closed_of_answers (answers : Answers q exchange q') :
    q'.closed = true ↔ q.closed = true ∨ exchange.1 = .close := by
  cases answers with
  | accept pushed => simp [closed_push pushed]
  | activate taken => simp [closed_tryActivate taken]
  | handOver released => simp [closed_release released]
  | letGo released => simp [closed_release released]
  | refuse | ignore => simp
  | close => simp [close]
  | discard => simp [discardWaiting]

/-- The exchange makes the key active. -/
def Exchange.Activates (key : String) (exchange : Exchange α) : Prop :=
  ∃ job, exchange = (.tryActivate key, .handedOut key (some job))

/-- The exchange ends the activation of the key. -/
def Exchange.LetsGo (key : String) (exchange : Exchange α) : Prop :=
  exchange = (.release key, .handedOut key none)

theorem mark_of_answers (formed : q.WellFormed) (answers : Answers q exchange q') (key : String) :
    q'.mark key = 1 ↔ exchange.Activates key ∨ (q.mark key = 1 ∧ ¬ exchange.LetsGo key) := by
  cases answers with
  | accept pushed => simp [Exchange.Activates, Exchange.LetsGo, mark_push pushed]
  | @activate other job q' taken =>
      by_cases same : other = key
      · subst same
        simp [Exchange.Activates, mark_tryActivate taken]
      · have apart : ¬ key = other := fun equal => same equal.symm
        simp [Exchange.Activates, Exchange.LetsGo, mark_tryActivate taken, same, apart]
  | handOver released => simp [Exchange.Activates, Exchange.LetsGo, mark_release_some released]
  | @letGo other q' released =>
      by_cases same : other = key
      · subst same
        simp [Exchange.Activates, Exchange.LetsGo, mark_release_none released]
      · have apart : ¬ key = other := fun equal => same equal.symm
        simp [Exchange.Activates, Exchange.LetsGo, mark_release_none released, same, apart]
  | refuse | ignore => simp [Exchange.Activates, Exchange.LetsGo]
  | close =>
      have kept : q.close.mark key = q.mark key := rfl
      simp [Exchange.Activates, Exchange.LetsGo, kept]
  | discard => simp [Exchange.Activates, Exchange.LetsGo, formed.mark_discardWaiting key]

/-! ## All exchanges so far -/

/-- The key was made active, and it has not been let go since. -/
def Engaged (key : String) (history : List (Exchange α)) : Prop :=
  ∃ before activation since, history = before ++ activation :: since ∧
    activation.Activates key ∧ ∀ later ∈ since, ¬ later.LetsGo key

theorem engaged_append_singleton :
    Engaged key (history ++ [exchange]) ↔
      exchange.Activates key ∨ (Engaged key history ∧ ¬ exchange.LetsGo key) := by
  constructor
  · rintro ⟨before, activation, since, split, activates, kept⟩
    rcases append_singleton_eq_split split with ⟨-, rfl, -⟩ | ⟨rest, rfl, earlier⟩
    · exact .inl activates
    · refine .inr ⟨⟨before, activation, rest, earlier, activates, ?_⟩, kept _ (by simp)⟩
      intro later member
      exact kept later (by simp [member])
  · rintro (activates | ⟨⟨before, activation, since, rfl, activates, kept⟩, holds⟩)
    · exact ⟨history, exchange, [], rfl, activates, by simp⟩
    · refine ⟨before, activation, since ++ [exchange], by simp, activates, ?_⟩
      intro later member
      rcases List.mem_append.mp member with member | member
      · exact kept later member
      · rwa [List.mem_singleton.mp member]

theorem Remembers.wellFormed (remembers : Remembers history q) : q.WellFormed := by
  induction remembers with
  | begin => exact ⟨List.nodup_nil, by simp [empty]⟩
  | next _ answered ih => exact ih.of_answers (answers_of_perform answered)

theorem Remembers.closed_iff (remembers : Remembers history q) :
    q.closed = true ↔ .close ∈ history.map (·.1) := by
  induction remembers with
  | begin => simp [empty]
  | next _ answered ih =>
      rw [closed_of_answers (answers_of_perform answered), ih]
      simp [eq_comm]

theorem Remembers.mark_iff (remembers : Remembers history q) (key : String) :
    q.mark key = 1 ↔ Engaged key history := by
  induction remembers with
  | begin => simp [Engaged, mark, line?, empty]
  | next earlier answered ih =>
      rw [mark_of_answers earlier.wellFormed (answers_of_perform answered), ih,
        engaged_append_singleton]

/-- What was accepted and does not wait any more was handed out or discarded, in the order in which
it was accepted. -/
theorem Remembers.interleaves (remembers : Remembers history q) (key : String) :
    ∃ gone, Interleaves (history.flatMap (·.handsOut key)) (history.flatMap (·.discards key)) gone ∧
      history.flatMap (·.accepts key) = gone ++ q.waitingOn key := by
  induction remembers with
  | begin => exact ⟨[], .nil, rfl⟩
  | @next history q q' operation reply earlier answered ih =>
      obtain ⟨gone, interleaves, accepted⟩ := ih
      obtain ⟨taken, apart⟩ :=
        waitingOn_of_answers earlier.wellFormed (answers_of_perform answered) key
      let exchange : Exchange α := (operation, reply)
      refine ⟨gone ++ (exchange.handsOut key ++ exchange.discards key), ?_, ?_⟩
      · simp only [List.flatMap_append, List.flatMap_cons, List.flatMap_nil, List.append_nil]
        apply interleaves.append
        rcases apart with nothing | nothing
        · simp only [exchange, nothing, List.nil_append]
          exact .right_alone _
        · simp only [exchange, nothing, List.append_nil]
          exact .left_alone _
      · simp only [List.flatMap_append, List.flatMap_cons, List.flatMap_nil, List.append_nil,
          accepted, List.append_assoc]
        rw [← taken]
        simp [exchange]

theorem Remembers.split {past future : List (Exchange α)}
    (remembers : Remembers (past ++ exchange :: future) q) :
    ∃ before after, Remembers past before ∧ Answers before exchange after ∧
      Remembers (past ++ [exchange]) after := by
  generalize whole : past ++ exchange :: future = history at remembers
  induction remembers generalizing future with
  | begin => simp at whole
  | @next history q q' operation reply earlier answered ih =>
      rcases append_singleton_eq_split whole.symm with ⟨rfl, rfl, -⟩ | ⟨rest, rfl, shorter⟩
      · exact ⟨q, q', earlier, answers_of_perform answered, .next earlier answered⟩
      · exact ih shorter.symm

/-- The law of a queue and its history. -/
structure Lawful (history : List (Exchange α)) (q : KeyQueue α) : Prop where
  /-- Of each key, the jobs that were handed out and then those that wait are the accepted ones in
  their order, once the discarded ones are taken out. -/
  order (key : String) :
    Interleaves (history.flatMap (·.handsOut key) ++ q.waitingOn key)
      (history.flatMap (·.discards key)) (history.flatMap (·.accepts key))
  /-- A push is accepted if the queue has not been closed before. Otherwise the job comes back and
  the queue stays as it is. -/
  admission {past future : List (Exchange α)} {key : String} {job : α} {reply : Reply α}
    (split : history = past ++ (.push key job, reply) :: future) :
    (reply = .accepted ↔ .close ∉ past.map (·.1)) ∧
      (reply ≠ .accepted → reply = .refused key job ∧
        ∃ before, Remembers past before ∧ Remembers (past ++ [(.push key job, reply)]) before)
  /-- A key that is made active again has been let go in between. -/
  turns {past between future : List (Exchange α)} {first second : Exchange α} {key : String}
    (split : history = past ++ first :: (between ++ second :: future))
    (activates : first.Activates key) (again : second.Activates key) :
    ∃ release ∈ between, release.LetsGo key
  /-- A release that hands out a job does so in an activation of its key. -/
  handover {past future : List (Exchange α)} {key : String} {job : α}
    (split : history = past ++ (.release key, .handedOut key (some job)) :: future) :
    Engaged key past

theorem not_engaged_of_activates {before after : KeyQueue α} (remembers : Remembers history before)
    (answers : Answers before exchange after) (activates : exchange.Activates key) :
    ¬ Engaged key history := by
  obtain ⟨job, rfl⟩ := activates
  cases answers with
  | activate taken =>
      rw [← remembers.mark_iff, mark_of_tryActivate taken]
      exact Nat.zero_ne_one

theorem Remembers.lawful (remembers : Remembers history q) : Lawful history q where
  order key := by
    obtain ⟨gone, interleaves, accepted⟩ := remembers.interleaves key
    rw [accepted]
    simpa using interleaves.append (.left_alone (q.waitingOn key))
  admission := by
    rintro past future key job reply rfl
    obtain ⟨before, after, earlier, answers, later⟩ := remembers.split
    rw [← earlier.closed_iff]
    cases answers with
    | accept pushed => simp [(push_eq_ok pushed).1]
    | refuse _ _ closed => exact ⟨by simp [closed], fun _ => ⟨rfl, before, earlier, later⟩⟩
  turns := by
    rintro past between future first second key rfl activates again
    have remembers : Remembers ((past ++ first :: between) ++ second :: future) q := by
      simpa using remembers
    obtain ⟨before, after, earlier, answers, -⟩ := remembers.split
    refine Classical.byContradiction fun kept => ?_
    refine not_engaged_of_activates earlier answers again ⟨past, first, between, rfl, activates, ?_⟩
    intro later member letsGo
    exact kept ⟨later, member, letsGo⟩
  handover := by
    rintro past future key job rfl
    obtain ⟨before, after, earlier, answers, -⟩ := remembers.split
    rw [← earlier.mark_iff]
    cases answers with
    | handOver released =>
        obtain ⟨rest, found, -⟩ := release_eq_some released
        simp [mark_of_line? found]

end KeyQueue

namespace SharedQueue

open KeyQueue

variable {q q' : KeyQueue α} {operation : Operation α} {reply : Reply α}
  {operations : List (Operation α)} {replies : List (Reply α)}

theorem perform_of_ok (done : q.perform operation = .ok (reply, q')) :
    SharedQueue.perform (.sound q) operation = (.ok reply, .sound q') :=
  Lock.access_of_ok done

theorem perform_of_error {fault : InactiveRelease} (fails : q.perform operation = .error fault) :
    SharedQueue.perform (.sound q) operation = (.error (.raised fault), .poisoned) :=
  Lock.access_of_error fails

theorem performEach_of_ok (done : q.perform operation = .ok (reply, q'))
    (operations : List (Operation α)) :
    performEach (.sound q) (operation :: operations) =
      (.ok reply :: (performEach (.sound q') operations).1,
        (performEach (.sound q') operations).2) := by
  simp [performEach, perform_of_ok done]

theorem performEach_cons_eq_ok
    (answered : (performEach (.sound q) (operation :: operations)).1 = replies.map .ok) :
    ∃ reply others q', replies = reply :: others ∧ q.perform operation = .ok (reply, q') ∧
      (performEach (.sound q') operations).1 = others.map .ok := by
  cases first : q.perform operation with
  | error fault => cases replies <;> simp [performEach, perform_of_error first] at answered
  | ok result =>
      obtain ⟨reply, next⟩ := result
      rw [performEach_of_ok first] at answered
      cases replies with
      | nil => simp at answered
      | cons head others =>
          simp only [List.map_cons, List.cons.injEq, Except.ok.injEq] at answered
          obtain ⟨rfl, answered⟩ := answered
          exact ⟨reply, others, next, rfl, rfl, answered⟩

theorem remembers_of_performEach {history : List (Exchange α)}
    (answered : (performEach (.sound q) operations).1 = replies.map .ok)
    (remembers : Remembers history q) :
    ∃ q', (performEach (.sound q) operations).2 = .sound q' ∧
      Remembers (history ++ operations.zip replies) q' := by
  induction operations generalizing q history replies with
  | nil => exact ⟨q, rfl, by simpa using remembers⟩
  | cons operation rest ih =>
      obtain ⟨reply, others, next, rfl, first, answered⟩ := performEach_cons_eq_ok answered
      obtain ⟨q', queue, later⟩ := ih answered (.next remembers first)
      exact ⟨q', by rw [performEach_of_ok first, queue], by simpa using later⟩

/-- Whatever operations a new queue is given, if none of them panics then what it answers obeys the
law of its history. -/
theorem lawful_of_performEach {operations : List (Operation α)} {replies : List (Reply α)}
    (answered : (performEach (.sound .empty) operations).1 = replies.map .ok) :
    ∃ q, (performEach (.sound .empty) operations).2 = .sound q ∧
      Lawful (operations.zip replies) q := by
  obtain ⟨q, queue, remembers⟩ := remembers_of_performEach answered .begin
  exact ⟨q, queue, by simpa using remembers.lawful⟩

/-- Two keys, one of them handed over, discarded while active and made active again, and a push
that comes too late. -/
def rounds : List (Operation Nat) :=
  [.push "a" 1, .push "b" 9, .push "a" 2, .tryActivate "a", .tryActivate "a", .push "a" 3,
    .release "a", .discardWaiting, .push "a" 4, .release "a", .release "a", .release "a",
    .push "a" 5, .tryActivate "a", .close, .push "a" 6]

def roundsAnswers : List (Reply Nat) :=
  [.accepted, .accepted, .accepted, .handedOut "a" (some 1), .handedOut "a" none, .accepted,
    .handedOut "a" (some 2), .discarded [("a", 3), ("b", 9)], .accepted, .handedOut "a" (some 4),
    .handedOut "a" none, .handedOut "a" none, .accepted, .handedOut "a" (some 5), .closed,
    .refused "a" 6]

theorem lawful_rounds :
    (performEach (.sound .empty) rounds).1 = roundsAnswers.map .ok ∧
      ∃ q, (performEach (.sound .empty) rounds).2 = .sound q ∧
        Lawful (rounds.zip roundsAnswers) q :=
  ⟨rfl, lawful_of_performEach rfl⟩

end SharedQueue

end KeyedJobs
