import Mathlib.Data.List.Dedup
import Mathlib.Data.List.Induction
import Mathlib.Data.Nat.Count
import KeyedJobs.Load.OrderLedger
import KeyedJobs.Proofs.KeyQueue.Lines
import KeyedJobs.Proofs.Tally

/-! # Starts that come late

A start comes late if a job of the same key with a higher number has started before. The ledger
keeps one number for each key, and it counts just the late starts, however often jobs start again
and however the starts of other keys come in between. If the jobs of each key start in the order of
their numbers, a job's further attempts coming before the next job's, it counts none.
-/

namespace KeyedJobs.Load

/-- Starts under the same key come in the order of the jobs' numbers. -/
def InOrder (starts : List (String × Nat)) : Prop :=
  starts.Pairwise fun earlier later => earlier.1 = later.1 → earlier.2 ≤ later.2

/-- The start at a place comes after that of a job of the same key with a higher number. -/
def ComesLate (starts : List (String × Nat)) (place : Nat) : Prop :=
  ∃ before < place, ∃ earlier ∈ starts[before]?, ∃ start ∈ starts[place]?,
    earlier.1 = start.1 ∧ start.2 < earlier.2

instance (starts : List (String × Nat)) : DecidablePred (ComesLate starts) := fun place =>
  inferInstanceAs (Decidable (∃ before < place, _))

/-- How many starts come late. -/
def lateStarts (starts : List (String × Nat)) : Nat :=
  Nat.count (ComesLate starts) starts.length

/-- The starts of one key. -/
def startsOf (key : String) (starts : List (String × Nat)) : List (String × Nat) :=
  starts.filter (·.1 = key)

/-- The numbers of the starts of one key. -/
def seqsOf (key : String) (starts : List (String × Nat)) : List Nat :=
  (startsOf key starts).map (·.2)

/-- The start would come late after these. -/
def Overtaken (starts : List (String × Nat)) (start : String × Nat) : Prop :=
  ∃ earlier ∈ starts, earlier.1 = start.1 ∧ start.2 < earlier.2

instance (starts : List (String × Nat)) : DecidablePred (Overtaken starts) := fun _ =>
  inferInstanceAs (Decidable (∃ earlier ∈ starts, _))

variable {starts other : List (String × Nat)} {start : String × Nat} {key : String}
  {seq place : Nat}

/-! ## One more start -/

theorem comesLate_append_of_lt (inside : place < starts.length) :
    ComesLate (starts ++ [start]) place ↔ ComesLate starts place := by
  refine exists_congr fun before => and_congr_right fun less => ?_
  rw [List.getElem?_append_left inside, List.getElem?_append_left (Nat.lt_trans less inside)]

theorem comesLate_append_length :
    ComesLate (starts ++ [start]) starts.length ↔ Overtaken starts start := by
  constructor
  · rintro ⟨before, less, earlier, found, last, there, late⟩
    rw [List.getElem?_append_left less] at found
    rw [List.getElem?_concat_length] at there
    cases there
    exact ⟨earlier, List.mem_of_getElem? found, late⟩
  · rintro ⟨earlier, member, late⟩
    obtain ⟨before, found⟩ := List.mem_iff_getElem?.mp member
    obtain ⟨less, -⟩ := List.getElem?_eq_some_iff.mp found
    refine ⟨before, less, earlier, ?_, start, List.getElem?_concat_length, late⟩
    rwa [List.getElem?_append_left less]

theorem lateStarts_append (starts : List (String × Nat)) (start : String × Nat) :
    lateStarts (starts ++ [start]) =
      lateStarts starts + if Overtaken starts start then 1 else 0 := by
  have before : Nat.count (ComesLate (starts ++ [start])) starts.length = lateStarts starts :=
    Nat.le_antisymm
      (Nat.count_mono_left fun place inside => (comesLate_append_of_lt inside).mp)
      (Nat.count_mono_left fun place inside => (comesLate_append_of_lt inside).mpr)
  rw [lateStarts, List.length_append, List.length_singleton, Nat.count_succ, before]
  simp only [comesLate_append_length]

theorem inOrder_append :
    InOrder (starts ++ [start]) ↔ InOrder starts ∧ ¬ Overtaken starts start := by
  simp only [InOrder, List.pairwise_append, List.pairwise_singleton, List.mem_singleton,
    forall_eq, true_and, Overtaken, not_exists, not_and, Nat.not_lt]

theorem lateStarts_eq_zero : lateStarts starts = 0 ↔ InOrder starts := by
  induction starts using List.reverseRecOn with
  | nil => exact iff_of_true rfl List.Pairwise.nil
  | append_singleton starts start ih =>
      rw [lateStarts_append, inOrder_append, Nat.add_eq_zero_iff, ih]
      split <;> simp_all

/-! ## Key by key -/

theorem mem_seqsOf : seq ∈ seqsOf key starts ↔ (key, seq) ∈ starts := by
  simp [seqsOf, startsOf]

theorem startsOf_eq (key : String) (starts : List (String × Nat)) :
    startsOf key starts = (seqsOf key starts).map (key, ·) := by
  have keyed : ∀ start ∈ startsOf key starts, (key, start.2) = start := fun start member =>
    Prod.ext (of_decide_eq_true (List.mem_filter.mp member).2).symm rfl
  rw [seqsOf, List.map_map]
  exact ((List.map_congr_left keyed).trans (List.map_id _)).symm

theorem startsOf_append (key : String) (starts : List (String × Nat)) (start : String × Nat) :
    startsOf key (starts ++ [start]) =
      startsOf key starts ++ if start.1 = key then [start] else [] := by
  simp [startsOf, List.filter_cons]

theorem seqsOf_append (key : String) (starts : List (String × Nat)) (start : String × Nat) :
    seqsOf key (starts ++ [start]) =
      seqsOf key starts ++ if start.1 = key then [start.2] else [] := by
  rw [seqsOf, startsOf_append, List.map_append, seqsOf]
  split <;> rfl

theorem overtaken_iff : Overtaken starts (key, seq) ↔ ∃ last ∈ seqsOf key starts, seq < last := by
  simp only [mem_seqsOf]
  constructor
  · rintro ⟨⟨_, last⟩, member, rfl, less⟩
    exact ⟨last, member, less⟩
  · rintro ⟨last, member, less⟩
    exact ⟨(key, last), member, rfl, less⟩

theorem overtaken_startsOf :
    Overtaken (startsOf start.1 starts) start ↔ Overtaken starts start := by
  simp only [Overtaken, startsOf, List.mem_filter, decide_eq_true_eq]
  exact exists_congr fun earlier => by tauto

theorem inOrder_iff : InOrder starts ↔ ∀ key, (seqsOf key starts).Pairwise (· ≤ ·) := by
  simp only [seqsOf, startsOf, List.pairwise_map, List.pairwise_filter, decide_eq_true_eq]
  constructor
  · exact fun inOrder key => inOrder.imp fun ordered same same' => ordered (same.trans same'.symm)
  · intro ordered
    rw [InOrder, List.pairwise_iff_forall_sublist]
    intro earlier later sublist same
    exact List.pairwise_iff_forall_sublist.mp (ordered later.1) sublist same rfl

theorem lateStarts_eq_tally {keys : List String} (distinct : keys.Nodup)
    (listed : ∀ start ∈ starts, start.1 ∈ keys) :
    lateStarts starts = tally (fun key => lateStarts (startsOf key starts)) keys := by
  induction starts using List.reverseRecOn with
  | nil => exact (tally_eq_zero.mpr fun _ _ => rfl).symm
  | append_singleton starts start ih =>
      rw [List.forall_mem_append, List.forall_mem_singleton] at listed
      have parts : ∀ key ∈ keys, lateStarts (startsOf key (starts ++ [start])) =
          lateStarts (startsOf key starts) +
            if start.1 = key then if Overtaken starts start then 1 else 0 else 0 := by
        intro key _
        rw [startsOf_append]
        split
        · subst key
          simp only [lateStarts_append, overtaken_startsOf]
        · rw [List.append_nil, Nat.add_zero]
      rw [tally_congr parts, tally_add, tally_ite_of_mem distinct listed.2, ← ih listed.1,
        lateStarts_append]

theorem lateStarts_congr (same : ∀ key, seqsOf key other = seqsOf key starts) :
    lateStarts other = lateStarts starts := by
  let keys := ((starts ++ other).map (·.1)).dedup
  have listed : ∀ start ∈ starts ++ other, start.1 ∈ keys := fun start member =>
    List.mem_dedup.mpr (List.mem_map_of_mem member)
  obtain ⟨here, there⟩ := List.forall_mem_append.mp listed
  have distinct : keys.Nodup := List.nodup_dedup _
  rw [lateStarts_eq_tally distinct here, lateStarts_eq_tally distinct there]
  simp only [startsOf_eq, same]

/-! ## The greatest number -/

theorem max?_append_singleton (numbers : List Nat) (n : Nat) :
    (numbers ++ [n]).max? = some (numbers.max?.elim n (max · n)) := by
  induction numbers with
  | nil => rfl
  | cons first rest ih =>
      rw [List.cons_append, List.max?_cons, ih, List.max?_cons]
      cases rest.max? with
      | none => rfl
      | some greatest => exact congrArg some (Nat.max_assoc ..).symm

theorem exists_lt_iff_max? {numbers : List Nat} {n : Nat} :
    (∃ last ∈ numbers, n < last) ↔ ∃ last, numbers.max? = some last ∧ n < last := by
  constructor
  · rintro ⟨last, member, less⟩
    cases found : numbers.max? with
    | none =>
        rw [List.max?_eq_none_iff.mp found] at member
        cases member
    | some greatest =>
        obtain ⟨-, bound⟩ := List.max?_eq_some_iff.mp found
        exact ⟨greatest, rfl, Nat.lt_of_lt_of_le less (bound last member)⟩
  · rintro ⟨last, found, less⟩
    exact ⟨last, List.max?_mem found, less⟩

/-! ## The ledger -/

namespace OrderLedger

variable {ledger : OrderLedger}

theorem last?_raise (ledger : OrderLedger) (key other : String) (seq : Nat) :
    (ledger.raise key seq).last? other = if other = key then some seq else ledger.last? other := by
  simp only [last?, raise, lookup_cons, lookup_filter_ne]
  split <;> rfl

theorem last?_record (ledger : OrderLedger) (key other : String) (seq : Nat) :
    (ledger.record key seq).last? other =
      if other = key then some ((ledger.last? key).elim seq (max · seq))
      else ledger.last? other := by
  unfold record
  cases found : ledger.last? key with
  | none => exact last?_raise ..
  | some last =>
      by_cases less : seq < last
      · simp only [if_pos less, Option.elim, Nat.max_eq_left (Nat.le_of_lt less)]
        split
        · subst other
          exact found
        · rfl
      · simp only [if_neg less, Option.elim, Nat.max_eq_right (Nat.not_lt.mp less)]
        exact last?_raise ..

theorem violations_record (ledger : OrderLedger) (key : String) (seq : Nat) :
    (ledger.record key seq).violations =
      ledger.violations + if ∃ last, ledger.last? key = some last ∧ seq < last then 1 else 0 := by
  unfold record
  cases found : ledger.last? key with
  | none => simp [raise]
  | some last => by_cases less : seq < last <;> simp [raise, less]

/-- The ledger holds what these starts come to: for each key the greatest number, and how many
starts come late. -/
structure Holds (ledger : OrderLedger) (starts : List (String × Nat)) : Prop where
  last : ∀ key, ledger.last? key = (seqsOf key starts).max?
  violations : ledger.violations = lateStarts starts

theorem Holds.empty : Holds empty [] := ⟨fun _ => rfl, rfl⟩

theorem Holds.record (holds : ledger.Holds starts) (key : String) (seq : Nat) :
    (ledger.record key seq).Holds (starts ++ [(key, seq)]) := by
  constructor
  · intro other
    rw [last?_record, seqsOf_append]
    split
    · subst other
      rw [if_pos rfl, max?_append_singleton, holds.last]
    · rename_i apart
      rw [if_neg (Ne.symm apart), List.append_nil, holds.last]
  · simp only [violations_record, lateStarts_append, overtaken_iff, exists_lt_iff_max?, holds.last,
      holds.violations]

theorem holds_recordEach (starts : List (String × Nat)) :
    (empty.recordEach starts).Holds starts := by
  induction starts using List.reverseRecOn with
  | nil => exact .empty
  | append_singleton starts start ih =>
      rw [recordEach, List.foldl_append]
      exact ih.record start.1 start.2

theorem violations_of_inOrder (inOrder : InOrder starts) :
    (empty.recordEach starts).violations = 0 :=
  (holds_recordEach starts).violations.trans (lateStarts_eq_zero.mpr inOrder)

/-- What a ledger tells about the starts that were recorded in it. -/
structure Tells (ledger : OrderLedger) (starts : List (String × Nat)) : Prop where
  /-- The violations are the starts that come after one of the same key with a higher number. -/
  violations : ledger.violations = lateStarts starts
  /-- The number that is kept for a key is the greatest that was recorded for it, if any was. -/
  last : ∀ key, ledger.last? key = (seqsOf key starts).max?
  /-- There is no violation if and only if no key's numbers ever decrease. -/
  inOrder : ledger.violations = 0 ↔ ∀ key, (seqsOf key starts).Pairwise (· ≤ ·)
  /-- Starts of other keys in between make no difference: if each key's numbers come in the same
  order, the violations are as many. -/
  keywise : ∀ other, (∀ key, seqsOf key other = seqsOf key starts) →
    (empty.recordEach other).violations = ledger.violations

/-- Whatever starts are recorded, the ledger counts just those that come late. -/
theorem tells_of_recordEach (starts : List (String × Nat)) :
    Tells (empty.recordEach starts) starts := by
  have holds := holds_recordEach starts
  refine ⟨holds.violations, holds.last, ?_, ?_⟩
  · rw [holds.violations, lateStarts_eq_zero, inOrder_iff]
  · intro other same
    rw [holds.violations, (holds_recordEach other).violations, lateStarts_congr same]

/-- A retry is no violation, and neither is another key's lower number. -/
example : (empty.recordEach [("a", 0), ("a", 0), ("a", 3), ("b", 1), ("a", 2)]).violations = 1 := by
  decide

end OrderLedger

end KeyedJobs.Load
