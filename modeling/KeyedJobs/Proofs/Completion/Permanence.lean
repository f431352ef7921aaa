import KeyedJobs.Proofs.Completion.Gathering
import KeyedJobs.Retry.Drive

/-! # What stays of a completion

A completion that was resolved stays resolved with its result, and one whose task has panicked stays
poisoned, whatever is done with the store afterwards. A poll that is not pending leaves the polled
completion so, chained or not.
-/

namespace KeyedJobs

/-- Resolved or poisoned. -/
inductive Completion.Final : Completion → Prop where
  | resolved (result : CompletionResult) : Final (.resolved result)
  | poisoned : Final .poisoned

theorem Poll.final_of_remains {yielded : Poll} {completion : Completion}
    (remains : yielded.remains = some completion) : completion.Final := by
  cases yielded with
  | pending => cases remains
  | ready result =>
      cases remains
      exact .resolved result
  | raised =>
      cases remains
      exact .poisoned

namespace Completions

variable {cs cs' cs'' : Completions} {id : CompletionId} {now : Instant} {completion : Completion}

/-- What is final in the first store is the same in the second. -/
def Upholds (cs cs' : Completions) : Prop :=
  ∀ (id : CompletionId) (completion : Completion), completion.Final →
    cs.entries[id]? = some completion → cs'.entries[id]? = some completion

theorem Upholds.refl (cs : Completions) : cs.Upholds cs :=
  fun _ _ _ entry => entry

theorem Upholds.of_eq (same : cs = cs') : cs.Upholds cs' := same ▸ .refl cs

theorem Upholds.trans (first : cs.Upholds cs') (second : cs'.Upholds cs'') : cs.Upholds cs'' := by
  intro id completion final entry
  exact second id completion final (first id completion final entry)

theorem size_put (cs : Completions) (id : CompletionId) (completion : Completion) :
    (cs.put id completion).entries.size = cs.entries.size := by
  simp [put]

theorem size_conclude (cs : Completions) (id : CompletionId) (yielded : Poll) :
    (cs.conclude id yielded).entries.size = cs.entries.size := by
  cases yielded <;> simp [conclude, put]

theorem entry_conclude (inside : id < cs.entries.size) {yielded : Poll}
    (ready : yielded ≠ .pending) : (cs.conclude id yielded).entries[id]? = yielded.remains := by
  cases yielded with
  | pending => exact absurd rfl ready
  | ready | raised => exact entry_put inside _

theorem conclude_of_ne {other : CompletionId} (apart : id ≠ other) (yielded : Poll) :
    (cs.conclude id yielded).entries[other]? = cs.entries[other]? := by
  cases yielded <;> simp [conclude, put, apart]

theorem size_poll (now : Instant) (cs : Completions) (id : CompletionId) :
    (cs.poll now id).2.entries.size = cs.entries.size := by
  fun_induction poll now cs id with
  | case4 id origin entry yielded after polled => rw [size_conclude, size_put]
  | case5 id source entry older yielded after polled ih => rw [size_conclude, ← ih, polled]
  | case1 | case2 | case3 | case6 => rfl

theorem poll_of_unresolved {origin : Origin} (entry : cs.entries[id]? = some (.unresolved origin))
    (now : Instant) : cs.poll now id = ((origin.poll now).1,
      (cs.put id (.unresolved (origin.poll now).2)).conclude id (origin.poll now).1) := by
  rw [poll, entry]

theorem entry_poll_of_unchained {other : CompletionId}
    (unchained : ∀ source, cs.entries[id]? ≠ some (.chained source)) (apart : id ≠ other) :
    (cs.poll now id).2.entries[other]? = cs.entries[other]? := by
  unfold poll
  cases entry : cs.entries[id]? with
  | none => rfl
  | some completion =>
      cases completion with
      | resolved | poisoned => rfl
      | chained source => exact absurd entry (unchained source)
      | unresolved origin => simp [conclude_of_ne apart, put, apart]

theorem entry_poll (now : Instant) (cs : Completions) (id : CompletionId)
    (ready : (cs.poll now id).1 ≠ .pending) :
    (cs.poll now id).2.entries[id]? = (cs.poll now id).1.remains := by
  unfold poll at ready ⊢
  cases entry : cs.entries[id]? with
  | none => simp [entry] at ready
  | some completion =>
      have inside : id < cs.entries.size := (Array.getElem?_eq_some_iff.mp entry).1
      rw [entry] at ready
      cases completion with
      | resolved | poisoned => exact entry
      | unresolved origin =>
          apply entry_conclude
          · rwa [size_put]
          · exact ready
      | chained source =>
          by_cases older : source < id
          · simp only [older, if_true] at ready ⊢
            apply entry_conclude
            · rwa [size_poll]
            · exact ready
          · simp [older] at ready

theorem upholds_poll (now : Instant) (cs : Completions) (id : CompletionId) :
    cs.Upholds (cs.poll now id).2 := by
  fun_induction poll now cs id with
  | case1 | case2 | case3 | case6 => exact .refl _
  | case4 id origin entry yielded after polled =>
      intro other present final found
      have apart : id ≠ other := by
        rintro rfl
        cases final <;> simp [entry] at found
      rw [conclude_of_ne apart]
      simpa [put, apart] using found
  | case5 id source entry older yielded after polled ih =>
      intro other present final found
      have apart : id ≠ other := by
        rintro rfl
        cases final <;> simp [entry] at found
      rw [polled] at ih
      rw [conclude_of_ne apart]
      exact ih other present final found

theorem entry_add (entry : cs.entries[id]? = some completion) (added : Completion) :
    (cs.add added).2.entries[id]? = some completion := by
  have inside : id < cs.entries.size := (Array.getElem?_eq_some_iff.mp entry).1
  simpa [add, Array.getElem?_push, Nat.ne_of_lt inside] using entry

theorem upholds_add (cs : Completions) (completion : Completion) :
    cs.Upholds (cs.add completion).2 :=
  fun _ _ _ entry => entry_add entry completion

theorem upholds_resolve (cs : Completions) (name : String) (result : CompletionResult) :
    cs.Upholds ((cs.resolve? name result).getD cs) := by
  intro id completion final entry
  refine entry_resolve_of_ne entry ?_ result
  rintro rfl
  cases final

theorem upholds_start (cs : Completions) (write : Write) : cs.Upholds (cs.start write).2 := by
  cases write with
  | existing => exact .refl cs
  | succeeded | failed | dropped | never | task => exact upholds_add cs _
  | gate name => exact (upholds_resolve cs name (.failure .dropped)).trans (upholds_add _ _)

theorem upholds_startEach (cs : Completions) (writes : List Write) :
    cs.Upholds (cs.startEach writes).2 := by
  induction writes generalizing cs with
  | nil => exact .refl cs
  | cons write rest ih => exact (upholds_start cs write).trans (ih _)

theorem upholds_inspectEach (now : Instant) (cs : Completions) (ids : List CompletionId) :
    cs.Upholds (cs.inspectEach now ids).2 := by
  induction ids generalizing cs with
  | nil => exact .refl cs
  | cons id rest ih => exact (upholds_poll now cs id).trans (ih _)

end Completions

open Completions (Upholds)

variable {cs cs' : Completions} {now : Instant} {limit : Option TimeLimit}

/-- That the completion has failed in this way can be seen in the store, unless it ran out of
time. -/
inductive Failure.Evident (cs : Completions) (failure : Failure) : Prop where
  | timedOut (limit : Duration) (error : failure.error = .timedOut limit)
  | resolved (entry : cs.entries[failure.completion]? = some (.resolved (.failure failure.error)))
  | poisoned (entry : cs.entries[failure.completion]? = some .poisoned)

theorem Failure.Evident.of_upholds {failure : Failure} (evident : failure.Evident cs)
    (upholds : cs.Upholds cs') : failure.Evident cs' := by
  cases evident with
  | timedOut limit error => exact .timedOut limit error
  | resolved entry => exact .resolved (upholds _ _ (.resolved _) entry)
  | poisoned entry => exact .poisoned (upholds _ _ .poisoned entry)

namespace Slot

/-- If the position has failed, that can be seen in the store. -/
def Evident (cs : Completions) (slot : Slot) : Prop :=
  ∀ failure, slot.failure? = some failure → failure.Evident cs

variable {slot : Slot}

theorem upholds_poll (now : Instant) (limit : Option TimeLimit) (cs : Completions) (slot : Slot) :
    cs.Upholds (slot.poll now limit cs).2 := by
  unfold poll
  split
  · exact .refl cs
  · exact Completions.upholds_poll now cs slot.completion

theorem Evident.poll (evident : slot.Evident cs) (now : Instant) (limit : Option TimeLimit) :
    (slot.poll now limit cs).1.Evident (slot.poll now limit cs).2 := by
  intro failure failed
  unfold Slot.poll at failed ⊢
  split at failed
  · exact evident failure failed
  · have left := Completions.entry_poll now cs slot.completion
    dsimp only at failed ⊢
    cases yielded : (cs.poll now slot.completion).1 with
    | pending =>
        rw [yielded] at failed
        cases limit with
        | none => cases failed
        | some limit =>
            by_cases expired : limit.isOver now
            · simp only [failure?, Poll.result?, expired, if_true, Option.some.injEq] at failed
              subst failed
              exact .timedOut limit.span rfl
            · simp [failure?, Poll.result?, expired] at failed
    | ready result =>
        rw [yielded] at failed left
        cases result with
        | success => cases failed
        | failure error =>
            cases failed
            exact .resolved (left (by simp))
    | raised panic =>
        rw [yielded] at failed left
        cases failed
        exact .poisoned (left (by simp))

theorem Evident.of_upholds (evident : slot.Evident cs) (upholds : cs.Upholds cs') :
    slot.Evident cs' :=
  fun failure failed => (evident failure failed).of_upholds upholds

end Slot

namespace Aggregation

theorem upholds_pollSlots (now : Instant) (limit : Option TimeLimit) (cs : Completions)
    (slots : List Slot) : cs.Upholds (pollSlots now limit cs slots).2 := by
  induction slots generalizing cs with
  | nil => exact .refl cs
  | cons slot rest ih => exact (Slot.upholds_poll now limit cs slot).trans (ih _)

theorem evident_pollSlots {slots : List Slot} (evident : ∀ slot ∈ slots, slot.Evident cs)
    (now : Instant) (limit : Option TimeLimit) :
    ∀ slot ∈ (pollSlots now limit cs slots).1,
      slot.Evident (pollSlots now limit cs slots).2 := by
  induction slots generalizing cs with
  | nil =>
      intro slot member
      cases member
  | cons slot rest ih =>
      obtain ⟨here, others⟩ := List.forall_mem_cons.mp evident
      have first := Slot.upholds_poll now limit cs slot
      have later := upholds_pollSlots now limit (slot.poll now limit cs).2 rest
      simp only [pollSlots, List.forall_mem_cons]
      constructor
      · exact (here.poll now limit).of_upholds later
      · apply ih
        intro other member
        exact (others other member).of_upholds first

/-- Every position that has failed so far can be seen to have failed. -/
def Evident (cs : Completions) (waiting : Aggregation) : Prop :=
  ∀ slot ∈ waiting.slots, slot.Evident cs

variable {waiting waiting' : Aggregation}

theorem evident_begin (now : Instant) (limit : Option Duration) (ids : List CompletionId) :
    (begin now limit ids).Evident cs := by
  intro slot member failure failed
  obtain ⟨id, -, rfl⟩ := List.mem_map.mp member
  cases failed

theorem Evident.poll (evident : waiting.Evident cs)
    (polled : waiting.poll now cs = (waiting', cs')) : waiting'.Evident cs' := by
  obtain ⟨rfl, rfl⟩ := Prod.mk.inj polled
  exact evident_pollSlots evident now waiting.limit

theorem upholds_of_poll (polled : waiting.poll now cs = (waiting', cs')) : cs.Upholds cs' := by
  obtain ⟨rfl, rfl⟩ := Prod.mk.inj polled
  exact upholds_pollSlots now waiting.limit cs waiting.slots

end Aggregation

/-- Every failure of the outcome can be seen in the store, unless the time limit brought it about. -/
def Outcome.Evident (cs : Completions) (outcome : Outcome) : Prop :=
  ∀ failure ∈ outcome.failures, failure.Evident cs

theorem Aggregation.Evident.outcome {waiting : Aggregation} (evident : waiting.Evident cs) :
    waiting.outcome.Evident cs := by
  intro failure member
  obtain ⟨slot, present, failed⟩ := List.mem_filterMap.mp member
  exact evident slot present failure failed

end KeyedJobs
