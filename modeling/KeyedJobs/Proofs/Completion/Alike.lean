import KeyedJobs.Proofs.Completion.Chains

/-! # Stores that differ in time and in what stands for failed calls

A call that hands back no completions is stood for by a completion that has its error. In two stores
that are alike such a proxy may have come about in different ways: in the one it has the error from
the start, in the other its task panics. The other may also be late, and then what was there before
the delay is left out of account. Whoever uses neither that nor the proxies finds no difference, and
finds none later.
-/

namespace KeyedJobs

/-- The origin when everything comes later by a span. -/
def Origin.later (span : Nat) : Origin → Origin
  | .task sleep wakeAt ending => .task sleep (wakeAt.map (· + span)) ending
  | origin => origin

theorem wakeUp?_later (span : Nat) (now : Instant) (sleep : Duration) :
    Instant.wakeUp? (now + span) sleep = (now.wakeUp? sleep).map (· + span) := by
  have due : Instant.after (now + span) sleep = now.after sleep + span :=
    Nat.add_right_comm now span sleep.nanoseconds
  unfold Instant.wakeUp?
  rw [due]
  split <;> rfl

theorem Origin.poll_later (span : Nat) (now : Instant) (origin : Origin) :
    (origin.later span).poll (now + span) =
      ((origin.poll now).1, (origin.poll now).2.later span) := by
  cases origin with
  | known | manual => cases ‹_› <;> rfl
  | task sleep wakeAt ending =>
      cases sleep with
      | none => rfl
      | some sleep =>
          have shifted : (wakeAt.map (· + span)).or (Instant.wakeUp? (now + span) sleep) =
              (wakeAt.or (now.wakeUp? sleep)).map (· + span) := by
            rw [wakeUp?_later, ← Option.map_or]
          cases wakes : wakeAt.or (now.wakeUp? sleep) with
          | none =>
              rw [wakes] at shifted
              rw [later, poll_of_endless shifted, poll_of_endless wakes, later]
          | some due =>
              rw [wakes] at shifted
              rw [later, poll_of_due shifted, poll_of_due wakes, later]
              simp

/-- The completion when everything comes later by a span. -/
def Completion.later (span : Nat) : Completion → Completion
  | .unresolved origin => .unresolved (origin.later span)
  | completion => completion

@[simp] theorem Completion.later_zero (completion : Completion) : completion.later 0 = completion := by
  rcases completion with (_ | _ | ⟨_, _ | _, _⟩) | _ | _ | _ <;> rfl

theorem Completion.later_eq_waiting {span : Nat} {completion : Completion} :
    completion.later span = .unresolved (.manual none) ↔ completion = .unresolved (.manual none) := by
  rcases completion with (_ | _ | _) | _ | _ | _ <;> simp [later, Origin.later]

/-- Of a completion whose error is known from the start. -/
inductive Completion.Tells (error : CompletionError) : Completion → Prop where
  | known : Tells error (.unresolved (.known (.failure error)))
  | resolved : Tells error (.resolved (.failure error))

/-- Of a completion whose error is known from the start, or whose task ends with the panic of the
error. -/
inductive Completion.StandsFor (error : CompletionError) : Completion → Prop where
  | tells {completion : Completion} (tells : completion.Tells error) : StandsFor error completion
  | panics {panic : Panic} (same : error = .ofPanic panic) (sleep : Option Duration)
      (wakeAt : Option Instant) : StandsFor error (.unresolved (.task sleep wakeAt (.panics panic)))
  | poisoned {panic : Panic} (same : error = .ofPanic panic) : StandsFor error .poisoned

/-- In what the second of two stores differs from the first. -/
structure Difference where
  /-- By how much it is late. -/
  span : Nat
  /-- What is numbered below this was there before the last delay. -/
  bar : CompletionId
  /-- What stands for failed calls. -/
  proxies : List Failure

namespace Difference

def none : Difference := ⟨0, 0, []⟩

def including (diff : Difference) (failure : Failure) : Difference :=
  { diff with proxies := failure :: diff.proxies }

/-- The difference after one more delay, when that many completions have been made. -/
def delayed (diff : Difference) (pause : Nat) (made : Nat) : Difference :=
  { diff with span := diff.span + pause, bar := made }

/-- The completion is the same in both stores, but for the delay. -/
def Spares (diff : Difference) (id : CompletionId) : Prop :=
  diff.bar ≤ id ∧ ∀ failure ∈ diff.proxies, failure.completion ≠ id

end Difference

/-- What a poll leaves of a completion with this origin. -/
def Origin.leaves (now : Instant) (origin : Origin) : Completion :=
  (origin.poll now).1.remains.getD (.unresolved (origin.poll now).2)

namespace Completions

variable {cs cs' : Completions} {id other : CompletionId} {now : Instant} {completion : Completion}
  {error : CompletionError} {diff : Difference}

/-- The completion is there and like this. -/
def Has (cs : Completions) (id : CompletionId) (kind : Completion → Prop) : Prop :=
  ∃ completion, cs.entries[id]? = some completion ∧ kind completion

variable {kind : Completion → Prop}

theorem Has.inside (has : cs.Has id kind) : id < cs.entries.size := by
  obtain ⟨completion, entry, -⟩ := has
  exact (Array.getElem?_eq_some_iff.mp entry).1

theorem Has.of_entry (has : cs.Has id kind) (same : cs'.entries[id]? = cs.entries[id]?) :
    cs'.Has id kind := by
  obtain ⟨completion, entry, present⟩ := has
  exact ⟨completion, same.trans entry, present⟩

theorem Has.imp {kind' : Completion → Prop} (has : cs.Has id kind)
    (implies : ∀ completion, kind completion → kind' completion) : cs.Has id kind' := by
  obtain ⟨completion, entry, present⟩ := has
  exact ⟨completion, entry, implies completion present⟩

theorem Has.add (has : cs.Has id kind) (completion : Completion) :
    (cs.add completion).2.Has id kind := by
  apply has.of_entry
  simp [Completions.add, Array.getElem?_push, Nat.ne_of_lt has.inside]

theorem entry_conclude_put (inside : id < cs.entries.size) (origin : Origin) (yielded : Poll) :
    ((cs.put id (.unresolved origin)).conclude id yielded).entries[id]? =
      some (yielded.remains.getD (.unresolved origin)) := by
  cases yielded with
  | pending => exact entry_put inside _
  | ready | raised => exact entry_put (by rwa [size_put]) _

theorem Has.poll (has : cs.Has id kind) (unchained : ∀ source, ¬ kind (.chained source))
    (polls : ∀ origin, kind (.unresolved origin) → kind (origin.leaves now)) (other : CompletionId) :
    (cs.poll now other).2.Has id kind := by
  fun_induction Completions.poll now cs other with
  | case1 | case2 | case3 | case6 => exact has
  | case4 other origin present yielded after polled =>
      by_cases same : other = id
      · subst same
        obtain ⟨completion, entry, holds⟩ := has
        obtain rfl : completion = .unresolved origin := by simpa [present] using entry.symm
        refine ⟨_, entry_conclude_put (Array.getElem?_eq_some_iff.mp entry).1 _ _, ?_⟩
        have kept := polls origin holds
        rwa [Origin.leaves, polled] at kept
      · apply has.of_entry
        rw [conclude_of_ne same]
        simp [put, same]
  | case5 other source present older yielded after polled ih =>
      rw [polled] at ih
      have apart : other ≠ id := by
        rintro rfl
        obtain ⟨completion, entry, holds⟩ := has
        obtain rfl : completion = .chained source := by simpa [present] using entry.symm
        exact unchained source holds
      exact ih.of_entry (conclude_of_ne apart _)

theorem send_of_ne (settled : cs.entries[id]? ≠ some (.unresolved (.manual none)))
    (result : CompletionResult) : cs.send id result = cs := by
  unfold send
  split
  · exact absurd ‹_› settled
  · rfl

theorem entry_send_of_ne (apart : id ≠ other) (result : CompletionResult) :
    (cs.send id result).entries[other]? = cs.entries[other]? := by
  unfold send
  split
  · simp [put, apart]
  · rfl

theorem size_send (cs : Completions) (id : CompletionId) (result : CompletionResult) :
    (cs.send id result).entries.size = cs.entries.size := by
  unfold send
  split
  · exact size_put cs id _
  · rfl

theorem senders_send (cs : Completions) (id : CompletionId) (result : CompletionResult) :
    (cs.send id result).senders = cs.senders := by
  unfold send
  split <;> rfl

theorem Has.send (has : cs.Has id kind) (unsent : ¬ kind (.unresolved (.manual none)))
    (target : CompletionId) (result : CompletionResult) : (cs.send target result).Has id kind := by
  by_cases apart : target = id
  · subst apart
    obtain ⟨completion, entry, holds⟩ := has
    rw [send_of_ne]
    · exact ⟨completion, entry, holds⟩
    · rw [entry]
      rintro ⟨⟩
      exact unsent holds
  · exact has.of_entry (entry_send_of_ne apart result)

theorem Has.resolve (has : cs.Has id kind) (unsent : ¬ kind (.unresolved (.manual none)))
    (name : String) (result : CompletionResult) :
    ((cs.resolve? name result).getD cs).Has id kind := by
  unfold resolve?
  cases cs.senders.lookup name with
  | none => exact has
  | some target => exact (has.send unsent target result).of_entry rfl

theorem tells_poll (tells : cs.Has id (·.Tells error)) (now : Instant) (other : CompletionId) :
    (cs.poll now other).2.Has id (·.Tells error) := by
  refine tells.poll (by rintro source ⟨⟩) ?_ other
  rintro origin ⟨⟩
  exact .resolved

theorem standsFor_poll (stands : cs.Has id (·.StandsFor error)) (now : Instant)
    (other : CompletionId) : (cs.poll now other).2.Has id (·.StandsFor error) := by
  refine stands.poll ?_ ?_ other
  · rintro source (⟨⟨⟩⟩ | _ | _)
  · rintro origin (⟨⟨⟩⟩ | ⟨same, sleep, wakeAt⟩ | _)
    · exact .tells .resolved
    · cases sleep with
      | none => exact .poisoned same
      | some sleep =>
          cases wakes : wakeAt.or (now.wakeUp? sleep) with
          | none =>
              rw [Origin.leaves, Origin.poll_of_endless wakes]
              exact .panics same _ _
          | some due =>
              rw [Origin.leaves, Origin.poll_of_due wakes]
              by_cases awake : due ≤ now
              · simpa [awake, TaskEnding.poll, Poll.remains] using .poisoned same
              · simpa [awake, Poll.remains] using .panics same _ _

theorem senders_poll (now : Instant) (cs : Completions) (id : CompletionId) :
    (cs.poll now id).2.senders = cs.senders := by
  have concluded (cs : Completions) (id : CompletionId) (yielded : Poll) :
      (cs.conclude id yielded).senders = cs.senders := by cases yielded <;> rfl
  fun_induction poll now cs id with
  | case1 | case2 | case3 | case6 => rfl
  | case4 id origin entry yielded after polled => exact concluded _ id yielded
  | case5 id source entry older yielded after polled ih =>
      rw [polled] at ih
      exact (concluded after id _).trans ih

/-- The stores have only this difference, and what is spared depends on nothing else. -/
structure Alike (diff : Difference) (cs cs' : Completions) : Prop where
  size : cs'.entries.size = cs.entries.size
  senders : cs'.senders = cs.senders
  bar : diff.bar ≤ cs.entries.size
  entry : ∀ id, diff.Spares id → cs'.entries[id]? = cs.entries[id]?.map (·.later diff.span)
  source : ∀ (id source : CompletionId), diff.Spares id →
    cs.entries[id]? = some (.chained source) → source < id → diff.Spares source
  ours : ∀ failure ∈ diff.proxies, cs.Has failure.completion (·.Tells failure.error)
  theirs : ∀ failure ∈ diff.proxies, cs'.Has failure.completion (·.StandsFor failure.error)

namespace Alike

theorem refl (cs : Completions) : Alike .none cs cs where
  size := rfl
  senders := rfl
  bar := Nat.zero_le _
  entry id _ := by simp [Difference.none]
  source _ _ _ _ _ := ⟨Nat.zero_le _, fun _ member => by cases member⟩
  ours _ member := by cases member
  theirs _ member := by cases member

variable (alike : Alike diff cs cs')

include alike

/-- The second store falls behind, and what is there is left out of account from now on. -/
theorem delayed (pause : Nat) : Alike (diff.delayed pause cs.entries.size) cs cs' where
  size := alike.size
  senders := alike.senders
  bar := Nat.le_refl _
  entry id spared := by
    rw [Array.getElem?_eq_none spared.1, Array.getElem?_eq_none (alike.size ▸ spared.1)]
    rfl
  source id source spared chained := by
    rw [Array.getElem?_eq_none spared.1] at chained
    cases chained
  ours := alike.ours
  theirs := alike.theirs

theorem spares_of_ge (new : cs.entries.size ≤ id) : diff.Spares id := by
  refine ⟨Nat.le_trans alike.bar new, ?_⟩
  rintro failure member rfl
  exact Nat.not_le.mpr (alike.ours failure member).inside new

theorem put (spared : diff.Spares id) (unchained : ∀ source, completion ≠ .chained source) :
    Alike diff (cs.put id completion) (cs'.put id (completion.later diff.span)) where
  size := by rw [size_put, size_put, alike.size]
  senders := alike.senders
  bar := by rw [size_put]; exact alike.bar
  entry other apart := by
    by_cases same : id = other
    · subst same
      simp only [Completions.put, Array.getElem?_setIfInBounds_self, alike.size]
      split <;> rfl
    · simpa [Completions.put, same] using alike.entry other apart
  source other source apart chained older := by
    by_cases same : id = other
    · subst same
      rw [Completions.put, Array.getElem?_setIfInBounds_self] at chained
      split at chained
      · exact absurd (Option.some.inj chained) (unchained source)
      · cases chained
    · have before : cs.entries[other]? = some (.chained source) := by
        simpa [Completions.put, same] using chained
      exact alike.source other source apart before older
  ours failure member := by
    apply (alike.ours failure member).of_entry
    simp [Completions.put, (spared.2 failure member).symm]
  theirs failure member := by
    apply (alike.theirs failure member).of_entry
    simp [Completions.put, (spared.2 failure member).symm]

theorem conclude (spared : diff.Spares id) (yielded : Poll) :
    Alike diff (cs.conclude id yielded) (cs'.conclude id yielded) := by
  cases yielded with
  | pending => exact alike
  | ready | raised => exact alike.put spared (by simp)

theorem poll (spared : diff.Spares id) (now : Instant) :
    (cs'.poll (now + diff.span) id).1 = (cs.poll now id).1 ∧
      Alike diff (cs.poll now id).2 (cs'.poll (now + diff.span) id).2 := by
  have same := alike.entry id spared
  fun_induction Completions.poll now cs id with
  | case1 id entry =>
      rw [Completions.poll, same, entry]
      exact ⟨rfl, alike⟩
  | case2 id result entry =>
      rw [Completions.poll, same, entry]
      exact ⟨rfl, alike⟩
  | case3 id entry =>
      rw [Completions.poll, same, entry]
      exact ⟨rfl, alike⟩
  | case4 id origin entry yielded after polled =>
      rw [Completions.poll, same, entry]
      simp only [Option.map_some, Completion.later, Origin.poll_later, polled, true_and]
      exact (alike.put spared (by simp)).conclude spared yielded
  | case5 id source entry older yielded after polled ih =>
      have apart := alike.source id source spared entry older
      obtain ⟨yields, later⟩ := ih apart (alike.entry source apart)
      rw [polled] at yields later
      rw [Completions.poll, same, entry]
      simp only [Option.map_some, Completion.later, older, if_true, yields, true_and]
      exact later.conclude spared _
  | case6 id source entry younger =>
      rw [Completions.poll, same, entry]
      simp only [Option.map_some, Completion.later, younger, if_false, true_and]
      exact alike

theorem isReady_eq (spared : diff.Spares id) (now : Instant) :
    cs'.isReady (now + diff.span) id = cs.isReady now id := by
  rw [Bool.eq_iff_iff, isReady_iff, isReady_iff, (alike.poll spared now).1]

theorem wakeAt?_eq (spared : diff.Spares id) :
    cs'.wakeAt? id = (cs.wakeAt? id).map (· + diff.span) := by
  have same := alike.entry id spared
  fun_induction wakeAt? cs id with
  | case1 id sleep wakeAt ending entry => rw [wakeAt?, same, entry]; rfl
  | case2 id source entry older ih =>
      have apart := alike.source id source spared entry older
      rw [wakeAt?, same, entry]
      simpa [Completion.later, older] using ih apart (alike.entry source apart)
  | case3 id source entry younger =>
      rw [wakeAt?, same, entry]
      simp [Completion.later, younger]
  | case4 id awake chained =>
      rw [wakeAt?, same]
      cases entry : cs.entries[id]? with
      | none => rfl
      | some completion =>
          cases completion with
          | chained source => exact absurd entry (chained source)
          | resolved | poisoned => rfl
          | unresolved origin =>
              rcases origin with _ | _ | ⟨_ | _, _, _⟩
              · rfl
              · rfl
              · rfl
              · exact absurd entry (awake _ _ _)

/-- What happens to completions that are not spared does not matter, as long as the proxies remain. -/
theorem of_unspared {ds ds' : Completions} (sizes : ds.entries.size = cs.entries.size)
    (sizes' : ds'.entries.size = cs'.entries.size) (senders : ds.senders = cs.senders)
    (senders' : ds'.senders = cs'.senders)
    (kept : ∀ id, diff.Spares id → ds.entries[id]? = cs.entries[id]?)
    (kept' : ∀ id, diff.Spares id → ds'.entries[id]? = cs'.entries[id]?)
    (ours : ∀ failure ∈ diff.proxies, ds.Has failure.completion (·.Tells failure.error))
    (theirs : ∀ failure ∈ diff.proxies, ds'.Has failure.completion (·.StandsFor failure.error)) :
    Alike diff ds ds' where
  size := by rw [sizes', sizes, alike.size]
  senders := by rw [senders', senders, alike.senders]
  bar := sizes ▸ alike.bar
  entry id spared := by rw [kept' id spared, kept id spared, alike.entry id spared]
  source id source spared chained := alike.source id source spared (kept id spared ▸ chained)
  ours := ours
  theirs := theirs

theorem poll_ours {failure : Failure} (member : failure ∈ diff.proxies) (now : Instant) :
    Alike diff (cs.poll now failure.completion).2 cs' := by
  have unchained (source : CompletionId) :
      cs.entries[failure.completion]? ≠ some (.chained source) := by
    obtain ⟨completion, entry, tells⟩ := alike.ours failure member
    rw [entry]
    cases tells <;> simp
  refine alike.of_unspared (size_poll ..) rfl (senders_poll ..) rfl ?_ (fun _ _ => rfl) ?_
    alike.theirs
  · exact fun id spared => entry_poll_of_unchained unchained (spared.2 failure member)
  · exact fun other among => tells_poll (alike.ours other among) now _

theorem poll_theirs {failure : Failure} (member : failure ∈ diff.proxies) (now : Instant) :
    Alike diff cs (cs'.poll now failure.completion).2 := by
  have unchained (source : CompletionId) :
      cs'.entries[failure.completion]? ≠ some (.chained source) := by
    obtain ⟨completion, entry, stands⟩ := alike.theirs failure member
    rw [entry]
    rcases stands with ⟨⟨⟩⟩ | _ | _ <;> simp
  refine alike.of_unspared rfl (size_poll ..) rfl (senders_poll ..) (fun _ _ => rfl) ?_
    alike.ours ?_
  · exact fun id spared => entry_poll_of_unchained unchained (spared.2 failure member)
  · exact fun other among => standsFor_poll (alike.theirs other among) now _

theorem poll_barred (barred : id < diff.bar) (now now' : Instant) :
    Alike diff (cs.poll now id).2 (cs'.poll now' id).2 := by
  refine alike.of_unspared (size_poll ..) (size_poll ..) (senders_poll ..) (senders_poll ..)
    ?_ ?_ ?_ ?_
  · exact fun other spared => entry_poll_of_lt now cs (Nat.lt_of_lt_of_le barred spared.1)
  · exact fun other spared => entry_poll_of_lt now' cs' (Nat.lt_of_lt_of_le barred spared.1)
  · exact fun other among => tells_poll (alike.ours other among) now _
  · exact fun other among => standsFor_poll (alike.theirs other among) now' _

theorem poll_any (now : Instant) (id : CompletionId) :
    Alike diff (cs.poll now id).2 (cs'.poll (now + diff.span) id).2 := by
  by_cases barred : id < diff.bar
  · exact alike.poll_barred barred now _
  · by_cases spared : diff.Spares id
    · exact (alike.poll spared now).2
    · simp only [Difference.Spares, Nat.not_lt.mp barred, true_and, not_forall, not_not] at spared
      obtain ⟨failure, member, rfl⟩ := spared
      exact (alike.poll_ours member now).poll_theirs member _

theorem inspectEach (now : Instant) (ids : List CompletionId) :
    Alike diff (cs.inspectEach now ids).2 (cs'.inspectEach (now + diff.span) ids).2 := by
  induction ids generalizing cs cs' with
  | nil => exact alike
  | cons id rest ih => exact ih (alike.poll_any now id)

theorem add (unchained : ∀ source, completion ≠ .chained source)
    (timeless : completion.later diff.span = completion) :
    Alike diff (cs.add completion).2 (cs'.add completion).2 where
  size := by simp [Completions.add, alike.size]
  senders := alike.senders
  bar := by
    rw [Completions.add, Array.size_push]
    exact Nat.le_succ_of_le alike.bar
  entry other spared := by
    simp only [Completions.add, Array.getElem?_push, alike.size, alike.entry other spared]
    split
    · exact congrArg some timeless.symm
    · rfl
  source other source spared chained older := by
    rw [Completions.add, Array.getElem?_push] at chained
    split at chained
    · exact absurd (Option.some.inj chained) (unchained source)
    · exact alike.source other source spared chained older
  ours failure member := (alike.ours failure member).add completion
  theirs failure member := (alike.theirs failure member).add completion

theorem add_proxy {completion' : Completion} (tells : completion.Tells error)
    (stands : completion'.StandsFor error) :
    Alike (diff.including ⟨cs.entries.size, error⟩) (cs.add completion).2
      (cs'.add completion').2 where
  size := by simp [Completions.add, alike.size]
  senders := alike.senders
  bar := by
    rw [Completions.add, Array.size_push]
    exact Nat.le_succ_of_le alike.bar
  entry other spared := by
    obtain ⟨young, apart⟩ := spared
    obtain ⟨new, apart⟩ := List.forall_mem_cons.mp apart
    simp only [Completions.add, Array.getElem?_push, alike.size, new.symm, if_false]
    exact alike.entry other ⟨young, apart⟩
  source other source spared chained older := by
    obtain ⟨young, apart⟩ := spared
    obtain ⟨new, apart⟩ := List.forall_mem_cons.mp apart
    rw [Completions.add, Array.getElem?_push, if_neg new.symm] at chained
    have spared := alike.source other source ⟨young, apart⟩ chained older
    refine ⟨spared.1, List.forall_mem_cons.mpr ⟨?_, spared.2⟩⟩
    have inside := (Array.getElem?_eq_some_iff.mp chained).1
    exact Nat.ne_of_gt (Nat.lt_trans older inside)
  ours := by
    refine List.forall_mem_cons.mpr ⟨⟨completion, by simp [Completions.add], tells⟩, ?_⟩
    exact fun failure member => (alike.ours failure member).add completion
  theirs := by
    have added : (cs'.add completion').2.entries[cs.entries.size]? = some completion' := by
      simp [Completions.add, ← alike.size]
    refine List.forall_mem_cons.mpr ⟨⟨completion', added, stands⟩, ?_⟩
    exact fun failure member => (alike.theirs failure member).add completion'

theorem send (id : CompletionId) (result : CompletionResult) :
    Alike diff (cs.send id result) (cs'.send id result) := by
  by_cases spared : diff.Spares id
  · have entry := alike.entry id spared
    by_cases waits : cs.entries[id]? = some (.unresolved (.manual none))
    · rw [waits] at entry
      rw [Completions.send, waits, Completions.send, entry]
      exact alike.put spared (by simp)
    · rw [send_of_ne waits, send_of_ne]
      · exact alike
      · rw [entry]
        intro later
        obtain ⟨completion, present, same⟩ := Option.map_eq_some_iff.mp later
        exact waits (present.trans (congrArg some (Completion.later_eq_waiting.mp same)))
  · have apart {other : CompletionId} (apart : diff.Spares other) : id ≠ other := by
      rintro rfl
      exact spared apart
    refine alike.of_unspared (size_send ..) (size_send ..) (senders_send ..) (senders_send ..)
      ?_ ?_ ?_ ?_
    · exact fun other spared => entry_send_of_ne (apart spared) result
    · exact fun other spared => entry_send_of_ne (apart spared) result
    · exact fun failure among => (alike.ours failure among).send (by rintro ⟨⟩) id result
    · exact fun failure among => (alike.theirs failure among).send (by rintro ⟨⟨⟩⟩) id result

theorem resolve (name : String) (result : CompletionResult) :
    Alike diff ((cs.resolve? name result).getD cs) ((cs'.resolve? name result).getD cs') := by
  unfold resolve?
  rw [alike.senders]
  cases cs.senders.lookup name with
  | none => exact alike
  | some id =>
      have sent := alike.send id result
      exact { sent with senders := rfl }

theorem start {write : Write} (spared : ∀ id, write = .existing id → diff.Spares id) :
    (cs'.start write).1 = (cs.start write).1 ∧ diff.Spares (cs.start write).1 ∧
      Alike diff (cs.start write).2 (cs'.start write).2 := by
  have new := alike.spares_of_ge (Nat.le_refl _)
  cases write with
  | existing id => exact ⟨rfl, spared id rfl, alike⟩
  | succeeded | failed | dropped | never | task =>
      exact ⟨alike.size, new, alike.add (by simp) rfl⟩
  | gate name =>
      have dropped := alike.resolve name (.failure .dropped)
      have added : Alike diff _ _ := dropped.add (by simp : ∀ source,
        Completion.unresolved (.manual none) ≠ .chained source) rfl
      refine ⟨dropped.size, dropped.spares_of_ge (Nat.le_refl _), ?_⟩
      refine { added with senders := ?_ }
      simp [Completions.start, addNamed, Completions.add, dropped.size, dropped.senders]

theorem startEach {writes : List Write} (spared : ∀ id, .existing id ∈ writes → diff.Spares id) :
    (cs'.startEach writes).1 = (cs.startEach writes).1 ∧
      (∀ id ∈ (cs.startEach writes).1, diff.Spares id) ∧
        Alike diff (cs.startEach writes).2 (cs'.startEach writes).2 := by
  induction writes generalizing cs cs' with
  | nil => exact ⟨rfl, by simp [Completions.startEach], alike⟩
  | cons write rest ih =>
      obtain ⟨first, new, begun⟩ := alike.start fun id same => spared id (same ▸ List.mem_cons_self)
      obtain ⟨others, further, later⟩ := ih begun fun id member =>
        spared id (List.mem_cons_of_mem _ member)
      simp only [Completions.startEach, first, others, List.forall_mem_cons, true_and]
      exact ⟨⟨new, further⟩, later⟩

end Alike

end Completions

/-- The limit when everything comes later by a span. -/
def TimeLimit.later (span : Nat) (limit : TimeLimit) : TimeLimit :=
  { limit with expiresAt := limit.expiresAt + span }

theorem TimeLimit.begin_later (span : Nat) (now : Instant) (limit : Duration) :
    TimeLimit.begin (now + span) limit = (TimeLimit.begin now limit).later span :=
  congrArg (TimeLimit.mk limit) (Nat.add_right_comm now span limit.nanoseconds)

theorem Poll.result?_later (span : Nat) (now : Instant) (limit : Option TimeLimit) (yielded : Poll) :
    yielded.result? (now + span) (limit.map (·.later span)) = yielded.result? now limit := by
  cases yielded with
  | ready | raised => rfl
  | pending =>
      cases limit with
      | none => rfl
      | some limit => simp [result?, TimeLimit.isOver, TimeLimit.later]

theorem least_later (span : Nat) (instants : List Instant) :
    (instants.map (· + span)).min? = instants.min?.map (· + span) := by
  cases found : instants.min? with
  | none => rw [List.min?_eq_none_iff.mp found]; rfl
  | some least =>
      obtain ⟨member, first⟩ := List.min?_eq_some_iff.mp found
      refine List.min?_eq_some_iff.mpr ⟨List.mem_map_of_mem member, List.forall_mem_map.mpr ?_⟩
      exact fun other among => Nat.add_le_add_right (first other among) span

namespace Aggregation

/-- The aggregation when everything comes later by a span. -/
def later (span : Nat) (waiting : Aggregation) : Aggregation :=
  { waiting with limit := waiting.limit.map (·.later span) }

theorem begin_later (span : Nat) (now : Instant) (limit : Option Duration) (ids : List CompletionId) :
    begin (now + span) limit ids = (begin now limit ids).later span := by
  cases limit with
  | none => rfl
  | some limit => simp [begin, later, TimeLimit.begin_later]

variable {cs cs' : Completions} {diff : Difference} {now : Instant} {slots : List Slot}
  {waiting : Aggregation}

theorem pollSlots_alike (alike : cs.Alike diff cs') (now : Instant) (limit : Option TimeLimit)
    (spared : ∀ slot ∈ slots, diff.Spares slot.completion) :
    (pollSlots (now + diff.span) (limit.map (·.later diff.span)) cs' slots).1 =
        (pollSlots now limit cs slots).1 ∧
      Completions.Alike diff (pollSlots now limit cs slots).2
        (pollSlots (now + diff.span) (limit.map (·.later diff.span)) cs' slots).2 := by
  induction slots generalizing cs cs' with
  | nil => exact ⟨rfl, alike⟩
  | cons slot rest ih =>
      obtain ⟨here, others⟩ := List.forall_mem_cons.mp spared
      have polled : (slot.poll (now + diff.span) (limit.map (·.later diff.span)) cs').1 =
            (slot.poll now limit cs).1 ∧
          Completions.Alike diff (slot.poll now limit cs).2
            (slot.poll (now + diff.span) (limit.map (·.later diff.span)) cs').2 := by
        unfold Slot.poll
        split
        · exact ⟨rfl, alike⟩
        · obtain ⟨yields, later⟩ := alike.poll here now
          simp only [yields, Poll.result?_later, true_and]
          exact later
      obtain ⟨same, later⟩ := ih polled.2 others
      simp only [pollSlots, polled.1, same, true_and]
      exact later

theorem poll_alike (alike : cs.Alike diff cs')
    (spared : ∀ id ∈ waiting.slots.map (·.completion), diff.Spares id) (now : Instant) :
    ((waiting.later diff.span).poll (now + diff.span) cs').1 =
        (waiting.poll now cs).1.later diff.span ∧
      Completions.Alike diff (waiting.poll now cs).2
        ((waiting.later diff.span).poll (now + diff.span) cs').2 := by
  obtain ⟨same, later⟩ := pollSlots_alike alike now waiting.limit (List.forall_mem_map.mp spared)
  simp only [poll, Aggregation.later, same, true_and]
  exact later

theorem isReady_alike (alike : cs.Alike diff cs')
    (spared : ∀ id ∈ waiting.slots.map (·.completion), diff.Spares id) (now : Instant) :
    (waiting.later diff.span).isReady (now + diff.span) cs' = waiting.isReady now cs := by
  have expired : (waiting.limit.map (·.later diff.span)).any (·.isOver (now + diff.span)) =
      waiting.limit.any (·.isOver now) := by
    cases waiting.limit with
    | none => rfl
    | some limit => simp [TimeLimit.isOver, TimeLimit.later]
  unfold isReady
  simp only [later, expired]
  rw [Bool.eq_iff_iff, List.any_eq_true, List.any_eq_true]
  refine exists_congr fun slot => and_congr_right fun member => ?_
  rw [alike.isReady_eq (List.forall_mem_map.mp spared slot member)]

theorem wakeAt?_alike (alike : cs.Alike diff cs')
    (spared : ∀ id ∈ waiting.slots.map (·.completion), diff.Spares id) :
    (waiting.later diff.span).wakeAt? cs' = (waiting.wakeAt? cs).map (· + diff.span) := by
  have same : waiting.slots.filterMap (fun slot =>
      if slot.result.isNone then cs'.wakeAt? slot.completion else none) =
        (waiting.slots.filterMap fun slot =>
          if slot.result.isNone then cs.wakeAt? slot.completion else none).map (· + diff.span) := by
    rw [List.map_filterMap]
    apply List.filterMap_congr
    intro slot member
    rw [alike.wakeAt?_eq (List.forall_mem_map.mp spared slot member)]
    split <;> rfl
  have limits : ((waiting.limit.map (·.later diff.span)).map (·.expiresAt)).toList =
      (waiting.limit.map (·.expiresAt)).toList.map (· + diff.span) := by
    cases waiting.limit <;> rfl
  rw [wakeAt?, wakeAt?, ← least_later, List.append_eq, List.append_eq, List.map_append]
  simp only [later, same, limits]

end Aggregation

end KeyedJobs
