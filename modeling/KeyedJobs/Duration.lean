import KeyedJobs.Text.Quoted

/-! # Durations

Spans of time, exact to the nanosecond. Covered are the two texts of a duration, the rounding to
whole milliseconds that settings are stored in, and the instants at which a span that starts now
runs out. Instants count nanoseconds of a clock that never goes back, and whose range ends after a
while.
-/

namespace KeyedJobs

/-- A span of time. -/
structure Duration where
  nanoseconds : Nat
  deriving Repr, DecidableEq

/-- A reading of the clock, in nanoseconds. -/
abbrev Instant := Nat

/-- The greatest number of milliseconds that a setting can hold. -/
def maxMillis : UInt64 := 18446744073709551615

namespace Duration

def nanosPerSecond : Nat := 1000000000

def nanosPerMilli : Nat := 1000000

def nanosPerMicro : Nat := 1000

def millisPerSecond : Nat := 1000

/-- A span of whole seconds and the nanoseconds beyond them. -/
def ofParts (seconds nanoseconds : Nat) : Duration :=
  ⟨seconds * nanosPerSecond + nanoseconds⟩

def ofMillis (millis : Nat) : Duration :=
  ⟨millis * nanosPerMilli⟩

/-- Whole seconds of the span. -/
def seconds (d : Duration) : Nat :=
  d.nanoseconds / nanosPerSecond

/-- The nanoseconds of the span beyond its whole seconds. -/
def subsecond (d : Duration) : Nat :=
  d.nanoseconds % nanosPerSecond

/-- Whole milliseconds of the span. There is room for them if the seconds fit 64 bits. -/
def millis (d : Duration) : BitVec 128 :=
  .ofNat 128 d.seconds * .ofNat 128 millisPerSecond + .ofNat 128 (d.subsecond / nanosPerMilli)

/-- Milliseconds of the span, the last of which counts as soon as it has begun. -/
def begunMillis (d : Duration) : BitVec 128 :=
  d.millis + .ofNat 128 (if d.subsecond % nanosPerMilli ≠ 0 then 1 else 0)

/-- The span in milliseconds as settings store it, rounded up, so that no span but the empty one is
stored as zero. A span that is too long for a setting is stored as the longest. -/
def wholeMillis (d : Duration) : UInt64 :=
  if d.begunMillis.toNat < UInt64.size then .ofNat d.begunMillis.toNat else maxMillis

/-- A remainder below `10 ^ width` as decimal places, without the zeros at their end. -/
def decimalPlaces (width remainder : Nat) : String :=
  let digits := Nat.toDigits 10 remainder
  let padded := List.replicate (width - digits.length) '0' ++ digits
  let kept := (padded.reverse.dropWhile (· == '0')).reverse
  if kept.isEmpty then "" else "." ++ String.ofList kept

/-- The span in one unit: the whole part, the decimal places and the unit's name. -/
def inUnit (d : Duration) (unit width : Nat) (name : String) : String :=
  toString (d.nanoseconds / unit) ++ decimalPlaces width (d.nanoseconds % unit) ++ name

/-- The span in the largest unit with a whole part, and nothing in nanoseconds if there is none. -/
def text (d : Duration) : String :=
  if nanosPerSecond ≤ d.nanoseconds then d.inUnit nanosPerSecond 9 "s"
  else if nanosPerMilli ≤ d.nanoseconds then d.inUnit nanosPerMilli 6 "ms"
  else if nanosPerMicro ≤ d.nanoseconds then d.inUnit nanosPerMicro 3 "µs"
  else d.inUnit 1 0 "ns"

end Duration

namespace Instant

/-- The last second of the clock's range. -/
def lastSecond : Nat := 9223372036854775807

/-- What the clock reads when a run begins. It counts from a moment long before, taken as an hour,
so the last spans that its range has room for are shorter than the range. -/
def start : Instant := 3600 * Duration.nanosPerSecond

/-- The instant at which a span that starts now is over. -/
def after (now : Instant) (d : Duration) : Instant :=
  now + d.nanoseconds

/-- The deadline of a span that starts now, unless it lies beyond the clock's range. -/
def deadline? (now : Instant) (d : Duration) : Option Instant :=
  if now.after d / Duration.nanosPerSecond ≤ lastSecond then some (now.after d) else none

end Instant

/-- Whether a sleep of this length ends. One that leads beyond the clock's range never does. The
reading at the start decides that: next to the range it counts for nothing how long a program has
been running. -/
def Duration.ends (d : Duration) : Bool :=
  (Instant.start.deadline? d).isSome

/-- The end of a sleep that starts now, if it has one. -/
def Instant.wakeUp? (now : Instant) (sleep : Duration) : Option Instant :=
  if sleep.ends then some (now.after sleep) else none

theorem Instant.wakeUp?_of_ends {sleep : Duration} (ends : sleep.ends = true) (now : Instant) :
    now.wakeUp? sleep = some (now.after sleep) := if_pos ends

theorem Instant.wakeUp?_eq_none_iff {now : Instant} {sleep : Duration} :
    now.wakeUp? sleep = none ↔ sleep.ends = false := by
  unfold wakeUp?
  cases sleep.ends <;> simp

/-- Settings and command lines give milliseconds in 64 bits, and the clock has room for all of
them. -/
theorem Duration.ends_ofMillis (millis : UInt64) : (ofMillis millis.toNat).ends = true := by
  have bound := millis.toNat_lt
  have inside :
      Instant.start.after (ofMillis millis.toNat) / nanosPerSecond ≤ Instant.lastSecond := by
    change (3600 * 1000000000 + millis.toNat * 1000000) / 1000000000 ≤ 9223372036854775807
    omega
  rw [ends, Instant.deadline?, if_pos inside]
  rfl

end KeyedJobs
