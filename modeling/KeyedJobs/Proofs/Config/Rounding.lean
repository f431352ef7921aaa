import KeyedJobs.Config.Basic
import Mathlib.Order.Bounds.Basic

/-! # Spans in settings

Settings store spans in whole milliseconds. A span is stored as the fewest milliseconds that cover
it, so that only the empty span is stored as zero, which as a pause means none and as a time limit
is refused. A span that is too long for a setting is stored as the longest. The seconds of a span
fit 64 bits, and its milliseconds then have room in 128.
-/

namespace KeyedJobs

namespace Duration

/-- The seconds of the span fit 64 bits. -/
def Fits (d : Duration) : Prop := d.seconds < UInt64.size

instance (d : Duration) : Decidable d.Fits := inferInstanceAs (Decidable (_ < _))

/-- The fewest milliseconds that cover the span. -/
def leastMillis (d : Duration) : Nat :=
  (d.nanoseconds + (nanosPerMilli - 1)) / nanosPerMilli

/-- No number of milliseconds that a setting can hold covers the span. -/
def Saturates (d : Duration) : Prop :=
  ∀ millis < UInt64.size, (ofMillis millis).nanoseconds < d.nanoseconds

/-- What comes back for a span that was stored: the span itself if a setting can hold it, and
nothing shorter if one can hold a span that covers it. -/
structure ComesBackAs (d back : Duration) : Prop where
  exact : ∀ millis < UInt64.size, d = ofMillis millis → back = d
  covers : ¬ d.Saturates → d.nanoseconds ≤ back.nanoseconds

variable {d longer : Duration} {millis : Nat}

theorem leastMillis_le_iff :
    d.leastMillis ≤ millis ↔ d.nanoseconds ≤ (ofMillis millis).nanoseconds := by
  simp only [leastMillis, ofMillis, nanosPerMilli]
  omega

theorem isLeast_leastMillis (d : Duration) :
    IsLeast {millis | d.nanoseconds ≤ (ofMillis millis).nanoseconds} d.leastMillis :=
  ⟨leastMillis_le_iff.mp (Nat.le_refl _), fun _ covers => leastMillis_le_iff.mpr covers⟩

theorem leastMillis_ofMillis (millis : Nat) : (ofMillis millis).leastMillis = millis := by
  simp only [leastMillis, ofMillis, nanosPerMilli]
  omega

theorem leastMillis_eq_zero_iff : d.leastMillis = 0 ↔ d.nanoseconds = 0 := by
  rw [← Nat.le_zero, leastMillis_le_iff, ofMillis, Nat.zero_mul, Nat.le_zero]

theorem leastMillis_mono (shorter : d.nanoseconds ≤ longer.nanoseconds) :
    d.leastMillis ≤ longer.leastMillis :=
  leastMillis_le_iff.mpr (Nat.le_trans shorter (isLeast_leastMillis longer).1)

theorem leastMillis_lt_of_not_saturates (spared : ¬ d.Saturates) : d.leastMillis < UInt64.size := by
  refine Nat.lt_of_not_le fun beyond => spared fun millis fits => Nat.lt_of_not_le fun covers => ?_
  exact Nat.not_lt.mpr beyond (Nat.lt_of_le_of_lt (leastMillis_le_iff.mpr covers) fits)

/-! ## Counting milliseconds -/

theorem Fits.nanoseconds_lt (fits : d.Fits) : d.nanoseconds < UInt64.size * nanosPerSecond := by
  simp only [Fits, seconds] at fits
  exact (Nat.div_lt_iff_lt_mul (by decide)).mp fits

theorem Fits.toNat_millis (fits : d.Fits) : d.millis.toNat = d.nanoseconds / nanosPerMilli := by
  have bound := fits.nanoseconds_lt
  simp only [UInt64.size, nanosPerSecond] at bound
  simp only [millis, seconds, subsecond, nanosPerSecond, nanosPerMilli, millisPerSecond,
    BitVec.toNat_add, BitVec.toNat_mul, BitVec.toNat_ofNat]
  omega

theorem Fits.toNat_begunMillis (fits : d.Fits) : d.begunMillis.toNat = d.leastMillis := by
  have bound := fits.nanoseconds_lt
  simp only [UInt64.size, nanosPerSecond] at bound
  rw [begunMillis, BitVec.toNat_add, fits.toNat_millis, BitVec.toNat_ofNat]
  split
  · rename_i begun
    simp only [leastMillis, subsecond, nanosPerSecond, nanosPerMilli] at begun ⊢
    omega
  · rename_i whole
    simp only [leastMillis, subsecond, nanosPerSecond, nanosPerMilli] at whole ⊢
    omega

theorem Fits.toNat_wholeMillis (fits : d.Fits) :
    d.wholeMillis.toNat =
      if d.leastMillis < UInt64.size then d.leastMillis else UInt64.size - 1 := by
  rw [wholeMillis, fits.toNat_begunMillis]
  split
  · rename_i below
    exact UInt64.toNat_ofNat_of_lt' below
  · rfl

theorem Fits.wholeMillis_eq_zero_iff (fits : d.Fits) :
    d.wholeMillis = 0 ↔ d.nanoseconds = 0 := by
  rw [← UInt64.toNat_inj, fits.toNat_wholeMillis, ← leastMillis_eq_zero_iff]
  split
  · exact Iff.rfl
  · rename_i beyond
    simp only [UInt64.size, UInt64.toNat_zero] at beyond ⊢
    omega

theorem Fits.wholeMillis_mono (fits : d.Fits) (fits' : longer.Fits)
    (shorter : d.nanoseconds ≤ longer.nanoseconds) : d.wholeMillis ≤ longer.wholeMillis := by
  have ordered := leastMillis_mono shorter
  rw [UInt64.le_iff_toNat_le, fits.toNat_wholeMillis, fits'.toNat_wholeMillis]
  split <;> split <;> omega

theorem Fits.comesBack (fits : d.Fits) : d.ComesBackAs (ofMillis d.wholeMillis.toNat) where
  exact := by
    rintro millis below rfl
    rw [fits.toNat_wholeMillis, leastMillis_ofMillis, if_pos below]
  covers spared := by
    rw [fits.toNat_wholeMillis, if_pos (leastMillis_lt_of_not_saturates spared)]
    exact (isLeast_leastMillis d).1

end Duration

namespace Config

open Duration

variable {c : Config} {d : Duration}

/-- What settings make of a span that they are given as a time limit or as a pause. -/
structure Rounds (c : Config) (d : Duration) : Prop where
  limit : (c.withCompletionTimeout d).completionTimeoutMs = some d.wholeMillis
  pause : (c.withRetryBackoff d).retryBackoffMs = d.wholeMillis
  /-- The fewest milliseconds that cover the span are counted without overflow, and they are stored
  if there is room for them. -/
  least : ∃ least, IsLeast {millis | d.nanoseconds ≤ (ofMillis millis).nanoseconds} least ∧
    d.begunMillis.toNat = least ∧
    d.wholeMillis.toNat = if least < UInt64.size then least else UInt64.size - 1
  monotone : ∀ longer : Duration, longer.Fits → d.nanoseconds ≤ longer.nanoseconds →
    d.wholeMillis ≤ longer.wholeMillis
  zero : d.wholeMillis = 0 ↔ d.nanoseconds = 0
  noPause : (c.withRetryBackoff d).retryBackoff = none ↔ d.nanoseconds = 0
  accepted : c.workers ≠ 0 →
    ((c.withCompletionTimeout d).validate = .ok () ↔ 0 < d.nanoseconds)
  limitBack : ∃ back, (c.withCompletionTimeout d).completionTimeout = some back ∧ d.ComesBackAs back
  pauseBack : 0 < d.nanoseconds →
    ∃ back, (c.withRetryBackoff d).retryBackoff = some back ∧ d.ComesBackAs back

/-- Spans are stored as the fewest milliseconds that cover them. -/
theorem rounds_of_fits (c : Config) (fits : d.Fits) : c.Rounds d where
  limit := rfl
  pause := rfl
  least := ⟨d.leastMillis, isLeast_leastMillis d, fits.toNat_begunMillis, fits.toNat_wholeMillis⟩
  monotone _ fits' shorter := fits.wholeMillis_mono fits' shorter
  zero := fits.wholeMillis_eq_zero_iff
  noPause := retryBackoff_eq_none_iff.trans fits.wholeMillis_eq_zero_iff
  accepted staffed := by
    rw [validate_eq_ok_iff, Nat.pos_iff_ne_zero]
    constructor
    · rintro ⟨-, positive⟩ empty
      exact positive (congrArg some (fits.wholeMillis_eq_zero_iff.mpr empty))
    · intro nonempty
      refine ⟨staffed, fun zero => nonempty ?_⟩
      exact fits.wholeMillis_eq_zero_iff.mp (Option.some.inj zero)
  limitBack := ⟨_, rfl, fits.comesBack⟩
  pauseBack positive := by
    have some_pause : d.wholeMillis ≠ 0 :=
      fun zero => Nat.ne_of_gt positive (fits.wholeMillis_eq_zero_iff.mp zero)
    exact ⟨_, if_neg some_pause, fits.comesBack⟩

/-- The longest span, which is stored as the longest that a setting can hold. -/
theorem rounds_longest :
    let longest := Duration.ofParts 18446744073709551615 999999999
    (longest.Fits ∧ longest.wholeMillis = maxMillis) ∧ (Config.default .single).Rounds longest := by
  intro longest
  have fits : longest.Fits := by decide
  exact ⟨⟨fits, by decide⟩, rounds_of_fits _ fits⟩

end Config

end KeyedJobs
