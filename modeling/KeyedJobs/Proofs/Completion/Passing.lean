import KeyedJobs.Proofs.Completion.Permanence

/-! # Waiting for nothing but time

Nobody has to send the result of a completion that knows it already or gets it from a task. A poll
that finds such a completion pending leaves it asleep, and whoever waits for completions that sleep
can go on when the first of them wakes, or when a time limit runs out before.
-/

namespace KeyedJobs

/-- Whether the completion comes by time alone: nobody has to send its result, and its sleep ends.
-/
def Completion.isPassing : Completion → Bool
  | .unresolved (.manual none) | .chained _ => false
  | .unresolved (.task (some sleep) none _) => sleep.ends
  | _ => true

/-- Whether it is known when the completion will be there: now, or when a sleep is over that has
begun. -/
def Completion.isClocked : Completion → Bool
  | .unresolved (.manual none) | .unresolved (.task (some _) none _) | .chained _ => false
  | _ => true

namespace Completions

variable {cs cs' : Completions} {id other : CompletionId} {now due : Instant}
  {limit : Option TimeLimit}

/-- The completion is there and comes by time alone. -/
def Passes (cs : Completions) (id : CompletionId) : Prop :=
  ∃ completion, cs.entries[id]? = some completion ∧ completion.isPassing = true

/-- The completion is there, and so is the time at which it can be had. -/
def Clocked (cs : Completions) (id : CompletionId) : Prop :=
  ∃ completion, cs.entries[id]? = some completion ∧ completion.isClocked = true

/-- The completion is that of a task which sleeps up to the instant. -/
def Sleeps (cs : Completions) (due : Instant) (id : CompletionId) : Prop :=
  ∃ sleep ending, cs.entries[id]? = some (.unresolved (.task (some sleep) (some due) ending))

theorem Sleeps.clocked (sleeps : cs.Sleeps due id) : cs.Clocked id := by
  obtain ⟨sleep, ending, entry⟩ := sleeps
  exact ⟨_, entry, rfl⟩

theorem Clocked.passes (clocked : cs.Clocked id) : cs.Passes id := by
  obtain ⟨completion, entry, known⟩ := clocked
  refine ⟨completion, entry, ?_⟩
  unfold Completion.isClocked at known
  unfold Completion.isPassing
  split at known <;> simp_all

theorem Passes.inside (passes : cs.Passes id) : id < cs.entries.size := by
  obtain ⟨completion, entry, -⟩ := passes
  exact (Array.getElem?_eq_some_iff.mp entry).1

theorem Passes.same (passes : cs.Passes id) (same : cs'.entries[id]? = cs.entries[id]?) :
    cs'.Passes id := by
  obtain ⟨completion, entry, passing⟩ := passes
  exact ⟨completion, same.trans entry, passing⟩

theorem Clocked.same (clocked : cs.Clocked id) (same : cs'.entries[id]? = cs.entries[id]?) :
    cs'.Clocked id := by
  obtain ⟨completion, entry, known⟩ := clocked
  exact ⟨completion, same.trans entry, known⟩

theorem Passes.add (passes : cs.Passes id) (added : Completion) : (cs.add added).2.Passes id := by
  obtain ⟨completion, entry, passing⟩ := passes
  exact ⟨completion, entry_add entry added, passing⟩

theorem Clocked.add (clocked : cs.Clocked id) (added : Completion) :
    (cs.add added).2.Clocked id := by
  obtain ⟨completion, entry, known⟩ := clocked
  exact ⟨completion, entry_add entry added, known⟩

theorem Sleeps.wakeAt?_eq (sleeps : cs.Sleeps due id) : cs.wakeAt? id = some due := by
  obtain ⟨sleep, ending, entry⟩ := sleeps
  rw [wakeAt?, entry]

theorem Sleeps.isReady_iff (sleeps : cs.Sleeps due id) : cs.isReady now id = true ↔ due ≤ now := by
  obtain ⟨sleep, ending, entry⟩ := sleeps
  simp only [isReady, entry, Origin.poll_of_due Option.some_or]
  by_cases expired : due ≤ now
  · cases ending <;> simp [expired, TaskEnding.poll]
  · simp [expired]

theorem isReady_of_entry (tidy : cs.Tidy) (same : cs'.entries[id]? = cs.entries[id]?) :
    cs'.isReady now id = cs.isReady now id := by
  rw [isReady, isReady, same]
  cases entry : cs.entries[id]? with
  | none => rfl
  | some completion =>
      cases completion with
      | chained source => exact absurd entry (tidy.unchained id source)
      | _ => rfl

theorem entry_poll_of_ne (tidy : cs.Tidy) (apart : id ≠ other) :
    (cs.poll now id).2.entries[other]? = cs.entries[other]? :=
  entry_poll_of_unchained (tidy.unchained id) apart

theorem Passes.sleeps (passes : cs.Passes id) (pending : (cs.poll now id).1 = .pending) :
    ∃ due, now < due ∧ (cs.poll now id).2.Sleeps due id := by
  obtain ⟨completion, entry, passing⟩ := passes
  have inside := (Array.getElem?_eq_some_iff.mp entry).1
  unfold poll at pending ⊢
  rw [entry] at pending ⊢
  cases completion with
  | chained | resolved | poisoned => contradiction
  | unresolved origin =>
      cases origin with
      | known result => contradiction
      | manual sent => cases sent <;> contradiction
      | task sleep wakeAt ending =>
          cases sleep with
          | none => cases ending <;> contradiction
          | some sleep =>
              obtain ⟨due, wakes⟩ : ∃ due, wakeAt.or (now.wakeUp? sleep) = some due := by
                cases wakeAt with
                | none => exact ⟨_, Instant.wakeUp?_of_ends passing now⟩
                | some due => exact ⟨due, rfl⟩
              dsimp only at pending ⊢
              rw [Origin.poll_of_due wakes] at pending ⊢
              by_cases expired : due ≤ now
              · simp only [expired, if_true] at pending
                cases ending <;> contradiction
              · simp only [expired, if_false]
                exact ⟨due, Nat.not_le.mp expired, sleep, ending, entry_put inside _⟩

theorem Passes.clocked_of_poll (passes : cs.Passes id) : (cs.poll now id).2.Clocked id := by
  by_cases pending : (cs.poll now id).1 = .pending
  · obtain ⟨due, -, sleeps⟩ := passes.sleeps pending
    exact sleeps.clocked
  · have left := entry_poll now cs id pending
    cases yielded : (cs.poll now id).1 with
    | pending => exact absurd yielded pending
    | ready | raised =>
        rw [yielded] at left
        exact ⟨_, left, rfl⟩

theorem Passes.poll (passes : cs.Passes id) (tidy : cs.Tidy) (other : CompletionId) :
    (cs.poll now other).2.Passes id := by
  by_cases apart : other = id
  · subst apart
    exact passes.clocked_of_poll.passes
  · exact passes.same (entry_poll_of_ne tidy apart)

theorem Clocked.poll (clocked : cs.Clocked id) (tidy : cs.Tidy) (other : CompletionId) :
    (cs.poll now other).2.Clocked id := by
  by_cases apart : other = id
  · subst apart
    exact clocked.passes.clocked_of_poll
  · exact clocked.same (entry_poll_of_ne tidy apart)

theorem Clocked.sleeps (clocked : cs.Clocked id) (unready : cs.isReady now id = false) :
    ∃ due, now < due ∧ cs.Sleeps due id := by
  obtain ⟨completion, entry, known⟩ := clocked
  rw [isReady, entry] at unready
  cases completion with
  | chained | resolved | poisoned => contradiction
  | unresolved origin =>
      cases origin with
      | known result => contradiction
      | manual sent => cases sent <;> contradiction
      | task sleep wakeAt ending =>
          cases sleep with
          | none => cases ending <;> contradiction
          | some sleep =>
              cases wakeAt with
              | none => contradiction
              | some due =>
                  refine ⟨due, Nat.not_le.mp fun expired => ?_, sleep, ending, entry⟩
                  simp only [Origin.poll_of_due Option.some_or, expired, if_true] at unready
                  cases ending <;> simp [TaskEnding.poll] at unready

theorem Clocked.sleeps_of_wakeAt? (clocked : cs.Clocked id) (wakes : cs.wakeAt? id = some due) :
    cs.Sleeps due id := by
  obtain ⟨completion, entry, known⟩ := clocked
  rw [wakeAt?, entry] at wakes
  split at wakes
  · rename_i sleep wakeAt ending same
    obtain rfl := wakes
    exact ⟨sleep, ending, entry.trans same⟩
  · rename_i source same
    obtain rfl := Option.some.inj same
    cases known
  · cases wakes

theorem Passes.entry_resolve (passes : cs.Passes id) (gate : String) (result : CompletionResult) :
    ((cs.resolve? gate result).getD cs).entries[id]? = cs.entries[id]? := by
  obtain ⟨completion, entry, passing⟩ := passes
  rw [entry]
  apply entry_resolve_of_ne entry
  rintro rfl
  cases passing

theorem isReady_poll (tidy : cs.Tidy) (ready : cs.isReady now id = true) (other : CompletionId) :
    (cs.poll now other).2.isReady now id = true := by
  by_cases apart : other = id
  · subst apart
    have left := entry_poll now cs other ((isReady_iff now cs other).mp ready)
    cases yielded : (cs.poll now other).1 with
    | pending => exact absurd yielded ((isReady_iff now cs other).mp ready)
    | ready | raised =>
        rw [yielded] at left
        rw [isReady, left]
        rfl
  · rw [isReady_of_entry tidy (entry_poll_of_ne tidy apart), ready]

theorem pollSlots_induct {P : Completions → Prop}
    (keeps : ∀ {cs}, cs.Tidy → P cs → ∀ other, P (cs.poll now other).2) (slots : List Slot)
    (tidy : cs.Tidy) (holds : P cs) : P (Aggregation.pollSlots now limit cs slots).2 := by
  induction slots generalizing cs with
  | nil => exact holds
  | cons slot rest ih =>
      have first : Change _ (fun _ => False) cs _ := slot.change_poll tidy now limit
      apply ih first.tidy
      unfold Slot.poll
      split
      · exact holds
      · exact keeps tidy holds slot.completion

end Completions

open Completions (Passes)

variable {cs cs' : Completions} {now due : Instant} {limit : Option TimeLimit} {slots : List Slot}

namespace Slot

variable {slot : Slot}

theorem result_poll_of_decided (decided : slot.result ≠ none) :
    (slot.poll now limit cs).1.result ≠ none := by
  unfold poll
  split <;> simp_all

theorem result_poll_of_isReady (ready : cs.isReady now slot.completion = true) :
    (slot.poll now limit cs).1.result ≠ none := by
  have there := (Completions.isReady_iff now cs slot.completion).mp ready
  unfold poll
  split
  · simp_all
  · cases yielded : (cs.poll now slot.completion).1 with
    | pending => exact absurd yielded there
    | ready | raised => simp [yielded, Poll.result?]

theorem result_poll_of_isOver (elapsed : limit.any (·.isOver now) = true) :
    (slot.poll now limit cs).1.result ≠ none := by
  obtain ⟨limit, rfl, expired⟩ := (Option.any_eq_true _ _).mp elapsed
  unfold poll
  split
  · simp_all
  · cases yielded : (cs.poll now slot.completion).1 <;> simp [yielded, Poll.result?, expired]

end Slot

/-- How many positions have no result. -/
def openIn (slots : List Slot) : Nat :=
  slots.countP (·.result.isNone)

theorem openIn_begin (now : Instant) (limit : Option Duration) (ids : List CompletionId) :
    openIn (Aggregation.begin now limit ids).slots = ids.length := by
  simp [openIn, Aggregation.begin, List.countP_map, Function.comp_def]

theorem openIn_cons (slot : Slot) (rest : List Slot) :
    openIn (slot :: rest) = openIn rest + if slot.result.isNone then 1 else 0 :=
  List.countP_cons

namespace Aggregation

theorem openIn_pollSlots (now : Instant) (limit : Option TimeLimit) (cs : Completions)
    (slots : List Slot) : openIn (pollSlots now limit cs slots).1 ≤ openIn slots := by
  induction slots generalizing cs with
  | nil => exact Nat.le_refl _
  | cons slot rest ih =>
      have others := ih (slot.poll now limit cs).2
      rw [pollSlots, openIn_cons, openIn_cons]
      cases result : slot.result with
      | none =>
          simp only [Option.isNone_none, if_true]
          split <;> omega
      | some =>
          have decided : (slot.poll now limit cs).1.result ≠ none :=
            Slot.result_poll_of_decided (by simp [result])
          rw [Option.isNone_eq_false_iff.mpr (Option.isSome_iff_ne_none.mpr decided)]
          simpa using others

theorem openIn_pollSlots_lt (tidy : cs.Tidy) (ready : ∃ slot ∈ slots, slot.result = none ∧
      (cs.isReady now slot.completion = true ∨ limit.any (·.isOver now) = true)) :
    openIn (pollSlots now limit cs slots).1 < openIn slots := by
  induction slots generalizing cs with
  | nil => simp at ready
  | cons slot rest ih =>
      have first : Completions.Change _ (fun _ => False) cs _ := slot.change_poll tidy now limit
      rw [pollSlots, openIn_cons, openIn_cons]
      obtain ⟨chosen, member, undecided, there⟩ := ready
      rcases List.mem_cons.mp member with rfl | later
      · have decided : (chosen.poll now limit cs).1.result ≠ none :=
          there.elim Slot.result_poll_of_isReady Slot.result_poll_of_isOver
        have others := openIn_pollSlots now limit (chosen.poll now limit cs).2 rest
        simp [undecided, Option.isNone_eq_false_iff.mpr (Option.isSome_iff_ne_none.mpr decided)]
        omega
      · have kept (ready : cs.isReady now chosen.completion = true) :
            (slot.poll now limit cs).2.isReady now chosen.completion = true := by
          unfold Slot.poll
          split
          · exact ready
          · exact Completions.isReady_poll tidy ready slot.completion
        have others := ih first.tidy ⟨chosen, later, undecided, there.imp_left kept⟩
        have here := openIn_pollSlots now limit cs [slot]
        simp only [pollSlots, openIn_cons] at here
        omega

theorem clocked_pollSlots (tidy : cs.Tidy)
    (passes : ∀ slot ∈ slots, slot.result = none → cs.Passes slot.completion) :
    ∀ slot ∈ (pollSlots now limit cs slots).1, slot.result = none →
      (pollSlots now limit cs slots).2.Clocked slot.completion := by
  induction slots generalizing cs with
  | nil =>
      intro slot member
      cases member
  | cons slot rest ih =>
      obtain ⟨here, others⟩ := List.forall_mem_cons.mp passes
      have first : Completions.Change _ (fun _ => False) cs _ := slot.change_poll tidy now limit
      rw [pollSlots, List.forall_mem_cons]
      constructor
      · intro undecided
        have unknown : slot.result = none := by
          by_contra decided
          exact Slot.result_poll_of_decided decided undecided
        have clocked : (slot.poll now limit cs).2.Clocked slot.completion := by
          simp only [Slot.poll, unknown]
          exact (here unknown).clocked_of_poll
        rw [Slot.completion_poll]
        exact Completions.pollSlots_induct (P := (·.Clocked _))
          (fun tidy clocked => clocked.poll tidy) rest first.tidy clocked
      · apply ih first.tidy
        intro other member undecided
        have passes := others other member undecided
        unfold Slot.poll
        split
        · exact passes
        · exact passes.poll tidy slot.completion

variable {waiting waiting' : Aggregation}

/-- Some positions are open, and it is known when their completions will be there. -/
structure Clocked (cs : Completions) (waiting : Aggregation) : Prop where
  incomplete : waiting.isComplete = false
  clocked : ∀ slot ∈ waiting.slots, slot.result = none → cs.Clocked slot.completion

theorem Clocked.kept (clocked : waiting.Clocked cs)
    (kept : ∀ id, cs.Clocked id → cs'.Clocked id) : waiting.Clocked cs' where
  incomplete := clocked.incomplete
  clocked slot member undecided := kept _ (clocked.clocked slot member undecided)

theorem clocked_of_poll (tidy : cs.Tidy)
    (passes : ∀ slot ∈ waiting.slots, slot.result = none → cs.Passes slot.completion)
    (polled : waiting.poll now cs = (waiting', cs')) (incomplete : waiting'.isComplete = false) :
    waiting'.Clocked cs' := by
  obtain ⟨rfl, rfl⟩ := Prod.mk.inj polled
  exact ⟨incomplete, clocked_pollSlots tidy passes⟩

theorem passes_begin {ids : List CompletionId} (passes : ∀ id ∈ ids, cs.Passes id)
    (limit : Option Duration) :
    ∀ slot ∈ (begin now limit ids).slots, slot.result = none → cs.Passes slot.completion := by
  intro slot member _
  obtain ⟨id, known, rfl⟩ := List.mem_map.mp member
  exact passes id known

theorem exists_open (incomplete : waiting.isComplete = false) :
    ∃ slot ∈ waiting.slots, slot.result = none := by
  simpa [isComplete] using incomplete

theorem Clocked.wakes (clocked : waiting.Clocked cs) (due_eq : waiting.wakeAt? cs = some due) :
    (∃ limit, waiting.limit = some limit ∧ limit.expiresAt = due) ∨
      ∃ slot ∈ waiting.slots, slot.result = none ∧ cs.Sleeps due slot.completion := by
  rcases List.mem_append.mp (List.min?_mem due_eq) with limited | sleeping
  · left
    simpa [Option.map_eq_some_iff] using limited
  · right
    obtain ⟨slot, member, wakes⟩ := List.mem_filterMap.mp sleeping
    cases undecided : slot.result with
    | some => simp [undecided] at wakes
    | none =>
        simp only [undecided, Option.isNone_none, if_true] at wakes
        have sleeps := (clocked.clocked slot member undecided).sleeps_of_wakeAt? wakes
        exact ⟨slot, member, undecided, sleeps⟩

theorem Clocked.exists_wakeAt? (clocked : waiting.Clocked cs)
    (still : waiting.isReady now cs = false) : ∃ due, waiting.wakeAt? cs = some due := by
  obtain ⟨slot, member, undecided⟩ := exists_open clocked.incomplete
  have unready := List.any_eq_false.mp still slot member
  simp only [undecided, Option.isNone_none, Bool.true_and, Bool.or_eq_true, not_or,
    Bool.not_eq_true] at unready
  obtain ⟨due, -, sleeps⟩ := (clocked.clocked slot member undecided).sleeps unready.1
  rw [wakeAt?, ← Option.isSome_iff_exists, List.isSome_min?_iff]
  apply List.ne_nil_of_mem (a := due)
  refine List.mem_append_right _ (List.mem_filterMap.mpr ⟨slot, member, ?_⟩)
  simp [undecided, sleeps.wakeAt?_eq]

theorem Clocked.isReady_of_wakeAt? (clocked : waiting.Clocked cs)
    (due_eq : waiting.wakeAt? cs = some due) : waiting.isReady due cs = true := by
  rw [isReady, List.any_eq_true]
  rcases clocked.wakes due_eq with ⟨limit, limited, rfl⟩ | ⟨slot, member, undecided, sleeps⟩
  · obtain ⟨slot, member, undecided⟩ := exists_open clocked.incomplete
    exact ⟨slot, member, by simp [undecided, limited, TimeLimit.isOver]⟩
  · exact ⟨slot, member, by simp [undecided, sleeps.isReady_iff]⟩

theorem Clocked.later (clocked : waiting.Clocked cs) (still : waiting.isReady now cs = false)
    (due_eq : waiting.wakeAt? cs = some due) : now < due := by
  rw [isReady, List.any_eq_false] at still
  apply Nat.not_le.mp
  intro expired
  rcases clocked.wakes due_eq with ⟨limit, limited, rfl⟩ | ⟨slot, member, undecided, sleeps⟩
  · obtain ⟨slot, member, undecided⟩ := exists_open clocked.incomplete
    exact still slot member (by simp [undecided, limited, TimeLimit.isOver, expired])
  · exact still slot member (by simp [undecided, sleeps.isReady_iff.mpr expired])

theorem openIn_poll (polled : waiting.poll now cs = (waiting', cs')) :
    openIn waiting'.slots ≤ openIn waiting.slots := by
  obtain ⟨rfl, rfl⟩ := Prod.mk.inj polled
  exact openIn_pollSlots now waiting.limit cs waiting.slots

theorem openIn_poll_lt (tidy : cs.Tidy) (polled : waiting.poll now cs = (waiting', cs'))
    (ready : waiting.isReady now cs = true) : openIn waiting'.slots < openIn waiting.slots := by
  obtain ⟨rfl, rfl⟩ := Prod.mk.inj polled
  apply openIn_pollSlots_lt tidy
  obtain ⟨slot, member, decides⟩ := List.any_eq_true.mp ready
  refine ⟨slot, member, ?_⟩
  simpa [Option.isNone_iff_eq_none] using decides

end Aggregation

end KeyedJobs
