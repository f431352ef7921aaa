import KeyedJobs.Proofs.KeyQueue.History

/-! # Keys are apart

What a queue answers about a key depends on the calls for that key and on when all keys were closed
or emptied in between. For one key the queue is no more than the key's line and whether it is
closed. Operations on other keys leave these alone, and an operation that concerns the key makes the
same of them, with the same answer, whatever else is in the queue. So the key's own operations are
answered as they would be if there were no others.
-/

namespace KeyedJobs

variable {α : Type}

namespace KeyQueue

/-- The operation is a call for the key or for all keys. -/
def Operation.concerns (key : String) : Operation α → Bool
  | .push other _ | .tryActivate other | .release other => other = key
  | .close | .discardWaiting => true

/-- What the reply tells about the key. Of the discarded jobs it is those of the key. -/
def Reply.on (key : String) : Reply α → Reply α
  | .discarded jobs => .discarded (jobs.filter (·.1 = key))
  | reply => reply

/-- The replies to the operations that concern the key, as far as they tell about it. -/
def repliesOn (key : String) (exchanges : List (Exchange α)) : List (Reply α) :=
  (exchanges.filter (·.1.concerns key)).map (·.2.on key)

/-- The queues have the same line of the key, and both are closed or both are open. -/
structure Alike (key : String) (q other : KeyQueue α) : Prop where
  line : q.line? key = other.line? key
  closed : q.closed = other.closed

variable {q q' other : KeyQueue α} {key : String} {job : α} {operation : Operation α}
  {reply : Reply α}

theorem Alike.refl (key : String) (q : KeyQueue α) : Alike key q q := ⟨rfl, rfl⟩

theorem Alike.trans {third : KeyQueue α} (first : Alike key q q') (second : Alike key q' third) :
    Alike key q third :=
  ⟨first.line.trans second.line, first.closed.trans second.closed⟩

theorem Alike.setLine (alike : Alike key q other) (line : KeyLine α) :
    Alike key { q with lines := setLine key line q.lines }
      { other with lines := setLine key line other.lines } := by
  refine ⟨?_, alike.closed⟩
  rw [line?_setLine, line?_setLine, if_pos rfl, if_pos rfl]

theorem alike_setLine {present : String} (apart : present ≠ key) (line : KeyLine α) :
    Alike key { q with lines := KeyQueue.setLine present line q.lines } q :=
  ⟨by rw [line?_setLine, if_neg apart.symm], rfl⟩

theorem alike_of_answers (answers : Answers q (operation, reply) q')
    (apart : operation.concerns key = false) : Alike key q' q := by
  cases answers with
  | accept pushed =>
      obtain ⟨-, line, -, rfl⟩ := push_eq_ok pushed
      exact alike_setLine (of_decide_eq_false apart) _
  | activate taken =>
      obtain ⟨rest, -, rfl⟩ := tryActivate_eq_some taken
      exact alike_setLine (of_decide_eq_false apart) _
  | handOver released =>
      obtain ⟨rest, -, rfl⟩ := release_eq_some released
      exact alike_setLine (of_decide_eq_false apart) _
  | @letGo present q' released =>
      have apart : present ≠ key := of_decide_eq_false apart
      rcases release_eq_none released with ⟨-, rfl⟩ | ⟨-, rfl⟩
      · exact .refl key q'
      · exact ⟨by rw [line?_dropLine, if_neg apart.symm], rfl⟩
  | refuse | ignore => exact .refl key q
  | close | discard => cases apart

/-! ## Operations that concern the key -/

theorem Alike.push (alike : Alike key q other) (pushed : q.push key job = .ok q') :
    ∃ other', other.push key job = .ok other' ∧ Alike key q' other' := by
  obtain ⟨opened, line, rfl, rfl⟩ := push_eq_ok pushed
  refine ⟨_, ?_, alike.setLine _⟩
  rw [KeyQueue.push, ← alike.closed, opened, ← alike.line]
  rfl

theorem Alike.tryActivate (alike : Alike key q other) :
    (other.tryActivate key).1 = (q.tryActivate key).1 ∧
      Alike key (q.tryActivate key).2 (other.tryActivate key).2 := by
  unfold KeyQueue.tryActivate
  rw [← alike.line]
  split
  · exact ⟨rfl, alike.setLine _⟩
  · exact ⟨rfl, alike⟩

theorem Alike.release (alike : Alike key q other) {next : Option α}
    (released : q.release key = .ok (next, q')) :
    ∃ other', other.release key = .ok (next, other') ∧ Alike key q' other' := by
  unfold KeyQueue.release at released ⊢
  rw [← alike.line]
  split at released <;> cases released
  · exact ⟨other, rfl, alike⟩
  · exact ⟨_, rfl, alike.setLine _⟩
  · refine ⟨_, rfl, ?_, alike.closed⟩
    rw [line?_dropLine, line?_dropLine, if_pos rfl, if_pos rfl]

theorem WellFormed.filter_eq_map_waitingOn (formed : q.WellFormed) (key : String) :
    q.allWaiting.filter (·.1 = key) = (q.waitingOn key).map (key, ·) := by
  have paired : ∀ entry ∈ q.allWaiting.filter (·.1 = key), (key, entry.2) = entry := by
    intro entry member
    have same : entry.1 = key := by simpa using (List.mem_filter.mp member).2
    rw [← same]
  rw [← formed.filter_allWaiting key, List.map_map]
  exact ((List.map_congr_left paired).trans (List.map_id _)).symm

theorem Alike.discardWaiting (alike : Alike key q other) (formed : q.WellFormed)
    (formed' : other.WellFormed) :
    q.allWaiting.filter (·.1 = key) = other.allWaiting.filter (·.1 = key) ∧
      Alike key q.discardWaiting.2 other.discardWaiting.2 := by
  refine ⟨?_, ?_, alike.closed⟩
  · rw [formed.filter_eq_map_waitingOn, formed'.filter_eq_map_waitingOn, waitingOn, alike.line]
    rfl
  · rw [formed.line?_discardWaiting, formed'.line?_discardWaiting, mark, alike.line]
    rfl

theorem Alike.perform (alike : Alike key q other) (formed : q.WellFormed)
    (formed' : other.WellFormed) (concerns : operation.concerns key = true)
    (answered : q.perform operation = .ok (reply, q')) :
    ∃ reply' other', other.perform operation = .ok (reply', other') ∧
      reply'.on key = reply.on key ∧ Alike key q' other' := by
  cases operation with
  | push present job =>
      obtain rfl : present = key := of_decide_eq_true concerns
      cases answers_of_perform answered with
      | accept pushed =>
          obtain ⟨other', pushed', alike'⟩ := alike.push pushed
          exact ⟨.accepted, other', by rw [KeyQueue.perform, pushed'], rfl, alike'⟩
      | refuse _ _ closed =>
          have refused : other.push present job = .error job := by
            rw [KeyQueue.push, ← alike.closed, closed]
            rfl
          exact ⟨.refused present job, other, by rw [KeyQueue.perform, refused], rfl, alike⟩
  | tryActivate present =>
      obtain rfl : present = key := of_decide_eq_true concerns
      obtain ⟨same, alike'⟩ := alike.tryActivate
      cases answered
      exact ⟨_, _, rfl, congrArg _ (congrArg _ same), alike'⟩
  | release present =>
      obtain rfl : present = key := of_decide_eq_true concerns
      cases released : q.release present with
      | error fault => simp [KeyQueue.perform, released, Except.map] at answered
      | ok result =>
          obtain ⟨next, after⟩ := result
          obtain ⟨other', released', alike'⟩ := alike.release released
          rw [KeyQueue.perform, released] at answered
          cases answered
          exact ⟨_, other', by rw [KeyQueue.perform, released']; rfl, rfl, alike'⟩
  | close =>
      cases answered
      exact ⟨.closed, other.close, rfl, rfl, alike.line, rfl⟩
  | discardWaiting =>
      obtain ⟨same, alike'⟩ := alike.discardWaiting formed formed'
      cases answered
      exact ⟨_, _, rfl, congrArg Reply.discarded same.symm, alike'⟩

end KeyQueue

namespace SharedQueue

open KeyQueue

variable {q own : KeyQueue α} {operations : List (Operation α)} {replies : List (Reply α)}
  {key : String}

/-- The operations that concern a key are answered as they are among all others, if the queue that
answers them alone was alike for the key. -/
theorem performEach_concerning (alike : Alike key q own) (formed : q.WellFormed)
    (formed' : own.WellFormed)
    (answered : (performEach (.sound q) operations).1 = replies.map .ok) :
    ∃ alone : List (Reply α),
      (performEach (.sound own) (operations.filter (·.concerns key))).1 = alone.map .ok ∧
      alone.map (·.on key) = repliesOn key (operations.zip replies) := by
  induction operations generalizing q own replies with
  | nil => exact ⟨[], rfl, rfl⟩
  | cons operation rest ih =>
      obtain ⟨reply, others, next, rfl, first, answered⟩ := performEach_cons_eq_ok answered
      have answers := answers_of_perform first
      have formedNext := formed.of_answers answers
      cases concerns : operation.concerns key with
      | false =>
          obtain ⟨alone, performed, same⟩ :=
            ih ((alike_of_answers answers concerns).trans alike) formedNext formed' answered
          refine ⟨alone, ?_, ?_⟩
          · simpa [concerns] using performed
          · simpa [repliesOn, concerns] using same
      | true =>
          obtain ⟨reply', own', first', told, alike'⟩ := alike.perform formed formed' concerns first
          obtain ⟨alone, performed, same⟩ :=
            ih alike' formedNext (formed'.of_answers (answers_of_perform first')) answered
          refine ⟨reply' :: alone, ?_, ?_⟩
          · simp [concerns, performEach_of_ok first', performed]
          · simpa [repliesOn, concerns, told] using same

/-- Two runs of a queue in which no operation panics, with the same calls for a key in the same
order between the same calls for all keys, are answered alike about this key. The calls for other
keys make no difference. -/
theorem repliesOn_of_performEach {operations operations' : List (Operation α)}
    {replies replies' : List (Reply α)} {key : String}
    (answered : (performEach (.sound .empty) operations).1 = replies.map .ok)
    (answered' : (performEach (.sound .empty) operations').1 = replies'.map .ok)
    (agree : operations.filter (·.concerns key) = operations'.filter (·.concerns key)) :
    repliesOn key (operations.zip replies) = repliesOn key (operations'.zip replies') := by
  have formed : (KeyQueue.empty : KeyQueue α).WellFormed := Remembers.begin.wellFormed
  obtain ⟨alone, performed, same⟩ := performEach_concerning (.refl key _) formed formed answered
  obtain ⟨alone', performed', same'⟩ := performEach_concerning (.refl key _) formed formed answered'
  have equal : alone = alone' := by
    apply (List.map_inj_right fun _ _ => Except.ok.inj).mp
    rw [← performed, agree, performed']
  rw [← same, equal, same']

/-- A key by itself, with a job that is discarded and one that comes too late. -/
def quiet : List (Operation Nat) :=
  [.push "a" 1, .push "a" 2, .tryActivate "a", .discardWaiting, .push "a" 3, .release "a", .close,
    .push "a" 4, .release "a"]

/-- The same calls for the key, amid another key that is activated, discarded and handed over. -/
def busy : List (Operation Nat) :=
  [.push "b" 7, .push "a" 1, .tryActivate "b", .push "b" 8, .push "a" 2, .tryActivate "a",
    .discardWaiting, .push "b" 9, .push "a" 3, .release "b", .release "b", .release "a",
    .push "b" 5, .close, .push "b" 6, .push "a" 4, .tryActivate "b", .release "a"]

theorem repliesOn_busy :
    let quietAnswers := [.accepted, .accepted, .handedOut "a" (some 1), .discarded [("a", 2)],
      .accepted, .handedOut "a" (some 3), .closed, .refused "a" 4, .handedOut "a" none]
    let busyAnswers := [.accepted, .accepted, .handedOut "b" (some 7), .accepted, .accepted,
      .handedOut "a" (some 1), .discarded [("b", 8), ("a", 2)], .accepted, .accepted,
      .handedOut "b" (some 9), .handedOut "b" none, .handedOut "a" (some 3), .accepted, .closed,
      .refused "b" 6, .refused "a" 4, .handedOut "b" (some 5), .handedOut "a" none]
    ((performEach (.sound .empty) quiet).1 = quietAnswers.map .ok ∧
        (performEach (.sound .empty) busy).1 = busyAnswers.map .ok ∧
        quiet.filter (·.concerns "a") = busy.filter (·.concerns "a")) ∧
      repliesOn "a" (quiet.zip quietAnswers) = repliesOn "a" (busy.zip busyAnswers) :=
  ⟨⟨rfl, rfl, rfl⟩, repliesOn_of_performEach rfl rfl rfl⟩

end SharedQueue

end KeyedJobs
