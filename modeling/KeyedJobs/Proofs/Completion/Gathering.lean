import KeyedJobs.Completion.Outcome
import KeyedJobs.Completion.Aggregation
import KeyedJobs.Proofs.Completion.Promises

/-! # What an aggregation gathers

An aggregation without a limit that waits for completions of its own gathers what they yield, and
nothing else: whenever it is polled, a position has no result or the one that its completion yields.
-/

namespace KeyedJobs

open Completions (SameAt Change Tidy Yields)

/-- What is in the store of a completion that has failed by yielding this. -/
def Poll.failed? : Poll → Option Completion
  | .ready (.failure error) => some (.resolved (.failure error))
  | .raised _ => some .poisoned
  | _ => none

variable {plan : Plan} {cs cs' : Completions} {now : Instant} {yielded : Poll}
  {uses : String → Prop}

namespace Slot

/-- The position waits for a completion that yields this, or has the result of it. -/
inductive Keeps (plan : Plan) (cs : Completions) (slot : Slot) (yielded : Poll) : Prop where
  | waits (undecided : slot.result = none) (yields : cs.Yields plan slot.completion yielded)
  | decided {result} (known : slot.result = some result)
      (final : ∀ now, yielded.result? now none = some result)
      (entry : cs.entries[slot.completion]? = yielded.remains)

variable {slot : Slot}

theorem Keeps.inside (keeps : slot.Keeps plan cs yielded) :
    slot.completion < cs.entries.size := by
  cases keeps with
  | waits _ yields => exact yields.inside
  | decided _ final entry =>
      cases yielded with
      | pending => cases final .start
      | ready | raised => exact (Array.getElem?_eq_some_iff.mp entry).1

theorem Keeps.same (keeps : slot.Keeps plan cs yielded) (same : SameAt cs cs' slot.completion) :
    slot.Keeps plan cs' yielded := by
  cases keeps with
  | waits undecided yields => exact .waits undecided (yields.same same)
  | decided known final entry => exact .decided known final (same.entry.trans entry)

theorem Keeps.resolve (keeps : slot.Keeps plan cs yielded) (tidy : cs.Tidy) (gate : String) :
    slot.Keeps plan ((cs.resolve? gate (plan gate)).getD cs) yielded := by
  cases keeps with
  | waits undecided yields => exact .waits undecided (yields.resolve tidy gate)
  | decided known final entry =>
      refine .decided known final ?_
      cases yielded with
      | pending => cases final .start
      | ready | raised =>
          rw [Completions.entry_resolve_of_ne entry (by simp)]
          rfl

theorem completion_poll (now : Instant) (limit : Option TimeLimit) (cs : Completions) :
    (slot.poll now limit cs).1.completion = slot.completion := by
  unfold poll
  split <;> rfl

theorem of_failure? {failure : Failure} (failed : slot.failure? = some failure) :
    failure.completion = slot.completion ∧ slot.result = some (.failure failure.error) := by
  unfold failure? at failed
  split at failed
  · cases failed
    exact ⟨rfl, by assumption⟩
  · cases failed

theorem change_poll (tidy : cs.Tidy) (now : Instant) (limit : Option TimeLimit) :
    Change (· = slot.completion) uses cs (slot.poll now limit cs).2 := by
  unfold poll
  split
  · exact .refl tidy
  · exact Completions.change_poll tidy now slot.completion

theorem Keeps.poll (keeps : slot.Keeps plan cs yielded) (now : Instant) :
    (slot.poll now none cs).1.Keeps plan (slot.poll now none cs).2 yielded := by
  cases keeps with
  | decided known final entry =>
      simp only [Slot.poll, known]
      exact .decided known final entry
  | waits undecided yields =>
      simp only [Slot.poll, undecided]
      rcases yields.poll now with ⟨pending, still⟩ | ⟨same, ready, entry⟩
      · exact .waits (by rw [pending]; rfl) still
      · rw [same]
        cases yielded with
        | pending => exact absurd rfl ready
        | ready | raised => exact .decided rfl (fun _ => rfl) entry

end Slot

namespace Aggregation

theorem completions_pollSlots (now : Instant) (limit : Option TimeLimit) (cs : Completions)
    (slots : List Slot) :
    (pollSlots now limit cs slots).1.map (·.completion) = slots.map (·.completion) := by
  induction slots generalizing cs with
  | nil => rfl
  | cons slot rest ih =>
      simp only [pollSlots, List.map_cons, ih, Slot.completion_poll]

theorem change_pollSlots (tidy : cs.Tidy) (now : Instant) (limit : Option TimeLimit)
    (slots : List Slot) :
    Change (· ∈ slots.map (·.completion)) uses cs (pollSlots now limit cs slots).2 := by
  induction slots generalizing cs with
  | nil => exact .refl tidy
  | cons slot rest ih =>
      have first : Change _ uses cs _ := slot.change_poll tidy now limit
      refine (first.widen ?_).trans ((ih first.tidy).widen ?_)
      · rintro _ rfl
        exact List.mem_cons_self
      · exact fun _ => List.mem_cons_of_mem _

theorem keeps_same {slots : List Slot} {yields : List Poll}
    (keeps : List.Forall₂ (Slot.Keeps plan cs) slots yields)
    (same : ∀ slot ∈ slots, slot.completion < cs.entries.size → SameAt cs cs' slot.completion) :
    List.Forall₂ (Slot.Keeps plan cs') slots yields := by
  induction keeps with
  | nil => exact .nil
  | cons first _ ih =>
      obtain ⟨here, rest⟩ := List.forall_mem_cons.mp same
      exact .cons (first.same (here first.inside)) (ih rest)

theorem pollSlots_keeps (tidy : cs.Tidy) {slots : List Slot} {yields : List Poll}
    (keeps : List.Forall₂ (Slot.Keeps plan cs) slots yields)
    (distinct : (slots.map (·.completion)).Nodup) :
    List.Forall₂ (Slot.Keeps plan (pollSlots now none cs slots).2) (pollSlots now none cs slots).1
      yields := by
  induction slots generalizing cs yields with
  | nil =>
      cases keeps
      exact .nil
  | cons slot rest ih =>
      cases keeps with
      | @cons _ yielded _ yields first others =>
          obtain ⟨apart, distinct⟩ := List.nodup_cons.mp distinct
          have polled : Change _ (fun _ => False) cs _ := slot.change_poll tidy now none
          have further : Change _ (fun _ => False) _ _ := change_pollSlots polled.tidy now none rest
          have kept := first.poll now
          refine .cons (kept.same (further.spares _ kept.inside ?_ fun _ => False.elim))
            (ih polled.tidy ?_ distinct)
          · rwa [Slot.completion_poll]
          · apply keeps_same others
            intro other member inside
            refine polled.spares _ inside ?_ fun _ => False.elim
            intro same
            exact apart (List.mem_map.mpr ⟨other, member, same⟩)

theorem sublist_failures (slots : List Slot) :
    ((slots.filterMap Slot.failure?).map (·.completion)).Sublist (slots.map (·.completion)) := by
  induction slots with
  | nil => exact .slnil
  | cons slot rest ih =>
      rw [List.filterMap_cons]
      cases failed : slot.failure? with
      | none => exact ih.cons _
      | some failure =>
          rw [List.map_cons, List.map_cons, (Slot.of_failure? failed).1]
          exact ih.cons_cons _

theorem failures_of_keeps {slots : List Slot} {yields : List Poll}
    (keeps : List.Forall₂ (Slot.Keeps plan cs) slots yields)
    (complete : ∀ slot ∈ slots, slot.result.isSome = true) :
    List.Forall₂ (fun failure entry => cs.entries[failure.completion]? = some entry)
      (slots.filterMap Slot.failure?) (yields.filterMap Poll.failed?) := by
  induction keeps with
  | nil => exact .nil
  | @cons slot yielded slots yields first others ih =>
      obtain ⟨here, rest⟩ := List.forall_mem_cons.mp complete
      cases first with
      | waits undecided =>
          rw [undecided] at here
          cases here
      | decided known final entry =>
          have final := final .start
          rw [List.filterMap_cons, List.filterMap_cons]
          cases yielded with
          | pending => cases final
          | raised panic =>
              cases final
              simpa [Slot.failure?, known, Poll.failed?] using ⟨entry, ih rest⟩
          | ready yielded =>
              obtain rfl : yielded = _ := Option.some.inj final
              cases yielded with
              | success => simpa [Slot.failure?, known, Poll.failed?] using ih rest
              | failure error =>
                  simpa [Slot.failure?, known, Poll.failed?] using ⟨entry, ih rest⟩

/-- The aggregation waits without a limit for completions of its own, which yield these results. -/
structure Gathers (plan : Plan) (cs : Completions) (yields : List Poll) (waiting : Aggregation) :
    Prop where
  untimed : waiting.limit = none
  keeps : List.Forall₂ (Slot.Keeps plan cs) waiting.slots yields
  distinct : (waiting.slots.map (·.completion)).Nodup

variable {waiting : Aggregation} {yields : List Poll}

theorem Gathers.begin {ids : List CompletionId}
    (promised : List.Forall₂ (cs.Yields plan) ids yields) (distinct : ids.Nodup) :
    (Aggregation.begin now none ids).Gathers plan cs yields where
  untimed := rfl
  keeps := by
    rw [Aggregation.begin, List.forall₂_map_left_iff]
    exact promised.imp fun _ _ yields => .waits rfl yields
  distinct := by simpa [Aggregation.begin, Function.comp_def] using distinct

theorem Gathers.poll (gathers : waiting.Gathers plan cs yields) (tidy : cs.Tidy) (now : Instant) :
    (waiting.poll now cs).1.Gathers plan (waiting.poll now cs).2 yields := by
  obtain ⟨untimed, keeps, distinct⟩ := gathers
  simp only [Aggregation.poll, untimed]
  refine ⟨rfl, pollSlots_keeps tidy keeps distinct, ?_⟩
  rwa [completions_pollSlots]

theorem Gathers.same (gathers : waiting.Gathers plan cs yields)
    (same : ∀ id ∈ waiting.slots.map (·.completion), SameAt cs cs' id) :
    waiting.Gathers plan cs' yields where
  untimed := gathers.untimed
  keeps := keeps_same gathers.keeps fun slot member _ =>
    same slot.completion (List.mem_map_of_mem member)
  distinct := gathers.distinct

theorem Gathers.resolve (gathers : waiting.Gathers plan cs yields) (tidy : cs.Tidy)
    (gate : String) : waiting.Gathers plan ((cs.resolve? gate (plan gate)).getD cs) yields where
  untimed := gathers.untimed
  keeps := gathers.keeps.imp fun _ _ keeps => keeps.resolve tidy gate
  distinct := gathers.distinct

end Aggregation

namespace Outcome

/-- The outcome names completions that have failed, and this is left of them in the store. -/
structure Shows (cs : Completions) (failed : List Completion) (outcome : Outcome) : Prop where
  entries : List.Forall₂ (fun failure entry => cs.entries[failure.completion]? = some entry)
    outcome.failures failed
  distinct : outcome.failedCompletions.Nodup

theorem Shows.isSuccess_eq {outcome : Outcome} {failed : List Completion}
    (shows : outcome.Shows cs failed) : outcome.isSuccess = failed.isEmpty := by
  have same := shows.entries.length_eq
  rw [Outcome.isSuccess, Bool.eq_iff_iff, List.isEmpty_iff_length_eq_zero, same,
    List.isEmpty_iff_length_eq_zero]

theorem Shows.same {outcome : Outcome} {failed : List Completion} (shows : outcome.Shows cs failed)
    (same : ∀ id ∈ outcome.failedCompletions, SameAt cs cs' id) : outcome.Shows cs' failed := by
  obtain ⟨entries, distinct⟩ := shows
  refine ⟨?_, distinct⟩
  unfold failedCompletions at same
  generalize outcome.failures = failures at entries same
  induction entries with
  | nil => exact .nil
  | cons entry _ ih =>
      obtain ⟨here, rest⟩ := List.forall_mem_cons.mp same
      exact .cons (here.entry.trans entry) (ih rest)

end Outcome

theorem Aggregation.Gathers.shows {waiting : Aggregation} {yields : List Poll}
    (gathers : waiting.Gathers plan cs yields) (complete : waiting.isComplete = true) :
    waiting.outcome.Shows cs (yields.filterMap Poll.failed?) where
  entries := failures_of_keeps gathers.keeps (by simpa [isComplete] using complete)
  distinct := (sublist_failures waiting.slots).nodup gathers.distinct

end KeyedJobs
