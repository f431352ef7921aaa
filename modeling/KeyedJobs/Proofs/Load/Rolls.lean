import KeyedJobs.Load.Profile
import Mathlib.Data.List.Nodup
import Mathlib.Data.List.Perm.Subperm
import Mathlib.Data.Nat.ModEq

/-! # Rolls in a row

From one attempt of a job to the next, and from one job to the next, the number that is rolled moves
on by a step that shares no factor with a hundred. So a hundred rolls in a row are all different,
and below any bound are exactly as many of them as the bound says.
-/

namespace KeyedJobs.Load

/-- The numbers on the way to the roll fit 64 bits. -/
def Fits (seq attempt : Nat) : Prop := seq * 2654435761 + attempt * 40503 < UInt64.size

instance (seq attempt : Nat) : Decidable (Fits seq attempt) := inferInstanceAs (Decidable (_ < _))

variable {start step modulus bound seq seq' attempt attempt' percent n : Nat}

/-! ## Residues in a row -/

/-- With a step that shares no factor with the modulus, as many steps as the modulus meet each
residue once. -/
theorem perm_residues (coprime : modulus.Coprime step) (start : Nat) :
    ((List.range modulus).map fun n => (start + n * step) % modulus).Perm (List.range modulus) := by
  have apart : ((List.range modulus).map fun n => (start + n * step) % modulus).Nodup := by
    refine List.Nodup.map_on (fun n inside n' inside' same => ?_) List.nodup_range
    have equal : n ≡ n' [MOD modulus] :=
      (Nat.ModEq.add_left_cancel' start same).cancel_right_of_coprime coprime
    exact equal.eq_of_lt_of_lt (List.mem_range.mp inside) (List.mem_range.mp inside')
  have residues : ((List.range modulus).map fun n => (start + n * step) % modulus) ⊆
      List.range modulus := by
    intro residue member
    obtain ⟨n, inside, rfl⟩ := List.mem_map.mp member
    exact List.mem_range.mpr (Nat.mod_lt _ (Nat.zero_lt_of_lt (List.mem_range.mp inside)))
  apply (List.subperm_of_subset apart residues).perm_of_length_le
  rw [List.length_map]

theorem countP_lt_range (bound count : Nat) :
    (List.range count).countP (fun n => n < bound) = min count bound := by
  induction count with
  | zero => simp
  | succ count ih =>
      rw [List.range_succ, List.countP_append, ih, List.countP_singleton]
      split <;> simp_all <;> omega

theorem countP_residues (coprime : modulus.Coprime step) (within : bound ≤ modulus) (start : Nat) :
    (List.range modulus).countP (fun n => (start + n * step) % modulus < bound) = bound := by
  have counted := (perm_residues coprime start).countP_eq (fun residue => residue < bound)
  rwa [List.countP_map, countP_lt_range, Nat.min_eq_right within] at counted

theorem exists_residue_ge (coprime : modulus.Coprime step) (below : bound < modulus) (start : Nat) :
    ∃ n ≤ bound, bound ≤ (start + n * step) % modulus := by
  refine Classical.byContradiction fun none_ge => ?_
  have all : (List.range (bound + 1)).countP (fun n => (start + n * step) % modulus < bound) =
      bound + 1 := by
    rw [List.countP_eq_length.mpr, List.length_range]
    intro n inside
    refine decide_eq_true (Nat.lt_of_not_le fun reached => none_ge ⟨n, ?_, reached⟩)
    exact Nat.le_of_lt_succ (List.mem_range.mp inside)
  have few := (List.range_sublist.mpr (Nat.succ_le_of_lt below)).countP_le
    (p := fun n => (start + n * step) % modulus < bound)
  rw [all, countP_residues coprime (Nat.le_of_lt below)] at few
  exact Nat.not_succ_le_self bound few

/-! ## Rolls -/

theorem Fits.mono (fits : Fits seq' attempt') (before : seq ≤ seq') (earlier : attempt ≤ attempt') :
    Fits seq attempt := by
  have product := Nat.mul_le_mul_right 2654435761 before
  have rest := Nat.mul_le_mul_right 40503 earlier
  exact Nat.lt_of_le_of_lt (Nat.add_le_add product rest) fits

theorem roll_of_fits (fits : Fits seq attempt) :
    roll seq attempt = .ok ((seq * 2654435761 + attempt * 40503) % 100) := by
  unfold Fits at fits
  have product : ¬ UInt64.size ≤ seq * 2654435761 := by omega
  simp only [roll, product, Nat.not_le.mpr fits, if_false]

-- An equation of functions: between their instances the kernel would compute rolls that it cannot
-- know, and would not come to an end.
theorem attemptFails_eq : attemptFails = fun seq attempt percent =>
    (roll seq attempt).map fun n => decide (n < percent) := rfl

theorem attemptFails_of_roll {rolled : Nat} (rolls : roll seq attempt = .ok rolled) :
    attemptFails seq attempt percent = .ok (decide (rolled < percent)) := by
  have same := congrFun (congrFun (congrFun attemptFails_eq seq) attempt) percent
  rw [rolls] at same
  exact same

theorem attemptFails_of_fits (fits : Fits seq attempt) (percent : Nat) :
    attemptFails seq attempt percent =
      .ok (decide ((seq * 2654435761 + attempt * 40503) % 100 < percent)) :=
  attemptFails_of_roll (roll_of_fits fits)

theorem attemptFails_of_attempt (fits : Fits seq (attempt + n)) (percent : Nat) :
    attemptFails seq (attempt + n) percent =
      .ok (decide ((seq * 2654435761 + attempt * 40503 + n * 40503) % 100 < percent)) := by
  rw [attemptFails_of_fits fits, Nat.add_mul, Nat.add_assoc]

theorem attemptFails_of_seq (fits : Fits (seq + n) attempt) (percent : Nat) :
    attemptFails (seq + n) attempt percent =
      .ok (decide ((seq * 2654435761 + attempt * 40503 + n * 2654435761) % 100 < percent)) := by
  rw [attemptFails_of_fits fits, Nat.add_mul, Nat.add_right_comm]

theorem countP_rolls {rolls : Nat → Except RollFault Bool} (coprime : Nat.Coprime 100 step)
    (inRange : percent ≤ 100)
    (moves : ∀ n < 100, rolls n = .ok (decide ((start + n * step) % 100 < percent))) :
    (List.range 100).countP (fun n => rolls n = .ok true) = percent := by
  refine (List.countP_congr fun n inside => ?_).trans (countP_residues coprime inRange start)
  rw [moves n (List.mem_range.mp inside)]
  simp

theorem countP_attempts (inRange : percent ≤ 100) (fits : Fits seq (attempt + 99)) :
    (List.range 100).countP (fun n => attemptFails seq (attempt + n) percent = .ok true) =
      percent := by
  apply countP_rolls (by decide : Nat.Coprime 100 40503) inRange
  intro n inside
  have near : attempt + n ≤ attempt + 99 := Nat.add_le_add_left (Nat.le_of_lt_succ inside) attempt
  exact attemptFails_of_attempt (fits.mono (Nat.le_refl seq) near) percent

theorem countP_seqs (inRange : percent ≤ 100) (fits : Fits (seq + 99) attempt) :
    (List.range 100).countP (fun n => attemptFails (seq + n) attempt percent = .ok true) =
      percent := by
  apply countP_rolls (by decide : Nat.Coprime 100 2654435761) inRange
  intro n inside
  have near : seq + n ≤ seq + 99 := Nat.add_le_add_left (Nat.le_of_lt_succ inside) seq
  exact attemptFails_of_seq (fits.mono near (Nat.le_refl attempt)) percent

theorem exists_lucky (below : percent < 100) (fits : Fits seq (attempt + percent)) :
    ∃ n ≤ percent, attemptFails seq (attempt + n) percent = .ok false := by
  obtain ⟨n, few, high⟩ :=
    exists_residue_ge (by decide : Nat.Coprime 100 40503) below
      (seq * 2654435761 + attempt * 40503)
  refine ⟨n, few, ?_⟩
  rw [attemptFails_of_attempt (fits.mono (Nat.le_refl seq) (Nat.add_le_add_left few attempt)),
    decide_eq_false (Nat.not_lt.mpr high)]

end KeyedJobs.Load
