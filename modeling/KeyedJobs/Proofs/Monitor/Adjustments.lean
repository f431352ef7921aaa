import KeyedJobs.Monitor.Basic
import KeyedJobs.Proofs.Tally

/-! # Adjustments of the counters

How much each adjustment adds to the counters of endings, and what the adjustments for a resolved
job come to: one ending, and the gauge lowered once and last.
-/

namespace KeyedJobs

namespace Monitor

/-- Whether the adjustment counts how a job ended. -/
def Adjustment.ends : Adjustment → Nat
  | .success | .abandonment => 1
  | _ => 0

def Adjustment.abandons : Adjustment → Nat
  | .abandonment => 1
  | _ => 0

def Adjustment.discards : Adjustment → Nat
  | .discard => 1
  | _ => 0

def Adjustment.lowers : Adjustment → Nat
  | .lower => 1
  | _ => 0

/-- The adjustments that are left of counting a resolved job. None is for a job that comes, and the
last one takes the job off the gauge. -/
structure Closing (left : List Adjustment) : Prop where
  leaving : ∀ adjustment ∈ left, adjustment ≠ .raise ∧ adjustment ≠ .admission
  last : left = [] ∨ ∃ before, left = before ++ [.lower]

theorem Closing.nil : Closing [] := ⟨fun _ member => (by cases member), .inl rfl⟩

theorem Closing.tail {adjustment : Adjustment} {left : List Adjustment}
    (closing : Closing (adjustment :: left)) : Closing left := by
  refine ⟨fun other member => closing.leaving other (List.mem_cons_of_mem _ member), ?_⟩
  rcases closing.last with none | ⟨before, some⟩
  · cases none
  · cases before with
    | nil =>
        obtain ⟨-, rfl⟩ := List.cons.inj some
        exact .inl rfl
    | cons first rest =>
        obtain ⟨-, rfl⟩ := List.cons.inj some
        exact .inr ⟨rest, rfl⟩

theorem Closing.eq_nil {left : List Adjustment} (closing : Closing left)
    (lowered : tally Adjustment.lowers left = 0) : left = [] := by
  rcases closing.last with none | ⟨before, rfl⟩
  · exact none
  · simp [Adjustment.lowers] at lowered

theorem closing_finished (r : Resolution) : Closing (Change.finished r).adjustments := by
  refine ⟨?_, .inr ⟨_, rfl⟩⟩
  simp only [Change.adjustments, Adjustment.ofEnding]
  split <;> split <;> simp

theorem closing_discarded : Closing Change.discarded.adjustments :=
  ⟨by simp [Change.adjustments], .inr ⟨[.discard, .abandonment], rfl⟩⟩

theorem ends_finished (r : Resolution) :
    tally Adjustment.ends (Change.finished r).adjustments = 1 := by
  simp only [Change.adjustments, Adjustment.ofEnding]
  split <;> split <;> rfl

theorem discards_finished (r : Resolution) :
    tally Adjustment.discards (Change.finished r).adjustments = 0 := by
  simp only [Change.adjustments, Adjustment.ofEnding]
  split <;> split <;> rfl

theorem lowers_finished (r : Resolution) :
    tally Adjustment.lowers (Change.finished r).adjustments = 1 := by
  simp only [Change.adjustments, Adjustment.ofEnding]
  split <;> split <;> rfl

theorem ended_adjust (m : Monitor) (adjustment : Adjustment) :
    (m.adjust adjustment).succeeded + (m.adjust adjustment).abandoned =
      m.succeeded + m.abandoned + adjustment.ends := by
  cases adjustment <;> simp only [adjust, Adjustment.ends] <;> omega

theorem admitted_adjust {m : Monitor} {adjustment : Adjustment} (leaving : adjustment ≠ .admission) :
    (m.adjust adjustment).admitted = m.admitted := by
  cases adjustment with
  | admission => exact absurd rfl leaving
  | _ => rfl

theorem incomplete_adjust {m : Monitor} {adjustment : Adjustment} (leaving : adjustment ≠ .raise)
    (unsaturated : adjustment = .lower → 0 < m.incomplete) :
    (m.adjust adjustment).incomplete + adjustment.lowers = m.incomplete := by
  cases adjustment with
  | raise => exact absurd rfl leaving
  | lower =>
      have positive := unsaturated rfl
      simp only [adjust, Adjustment.lowers]
      omega
  | _ => rfl

theorem abandoned_adjust (m : Monitor) (adjustment : Adjustment) :
    (m.adjust adjustment).abandoned = m.abandoned + adjustment.abandons := by
  cases adjustment <;> rfl

theorem discarded_adjust (m : Monitor) (adjustment : Adjustment) :
    (m.adjust adjustment).discarded = m.discarded + adjustment.discards := by
  cases adjustment <;> rfl

end Monitor

end KeyedJobs
