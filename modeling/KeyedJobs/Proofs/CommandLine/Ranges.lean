import KeyedJobs.CommandLine.Reader

/-! # What a command line can give

The value of a flag is checked when the flag is taken, and nothing else changes the arguments. So
what each flag keeps is true of all arguments that are read. In particular each number is within the
limits of its flag, and the clock has room for the time that writes are said to take.
-/

namespace KeyedJobs.CommandLine

namespace Limits

variable {limits : Limits} {sign number n : Int}

def Within (limits : Limits) (n : Int) : Prop := limits.lowest ≤ n ∧ n ≤ limits.highest

theorem within_of_readDigits {digits : List Char} (within : limits.Within number)
    (read : limits.readDigits sign number digits = .ok n) : limits.Within n := by
  induction digits generalizing number with
  | nil =>
      obtain rfl := Except.ok.inj read
      exact within
  | cons c digits ih =>
      rw [readDigits] at read
      split at read
      · dsimp only at read
        split at read
        · cases read
        · split at read
          · cases read
          · exact ih ⟨by omega, by omega⟩ read
      · cases read

theorem within_of_read {text : String} (zero : limits.Within 0) (read : limits.read text = .ok n) :
    limits.Within n := by
  unfold Limits.read at read
  split at read
  · cases read
  · split at read
    · cases read
    · split at read
      · exact within_of_readDigits zero read
      · split at read <;> exact within_of_readDigits zero read

end Limits

theorem lt_of_readWord {value : String} {n : Nat} (read : readWord value = .ok n) :
    n < UInt64.size := by
  unfold readWord at read
  split at read
  · rename_i word found
    obtain rfl := Except.ok.inj read
    have within := Limits.within_of_read ⟨by decide, by decide⟩ found
    simp only [Limits.Within, Limits.unsigned] at within
    change word.toNat < 18446744073709551616
    omega
  · cases read

theorem le_of_readUpTo {value : String} {highest n : Nat} (read : readUpTo highest value = .ok n) :
    n ≤ highest := by
  unfold readUpTo at read
  split at read
  · split at read
    · rename_i inside
      obtain rfl := Except.ok.inj read
      omega
    · cases read
  · cases read

/-- The numbers of the load are within the limits of their flags. -/
structure Arguments.InRange (a : Arguments) : Prop where
  keys : a.profile.keys < UInt64.size
  jobs : a.profile.jobs < UInt64.size
  writesPerJob : a.profile.writesPerJob < UInt64.size
  maxRetries : a.profile.maxRetries ≤ 4294967295
  failurePercent : a.profile.failurePercent ≤ 100
  ends : a.profile.writeLatency.ends = true

variable {P : Arguments → Prop} {a a' : Arguments} {p : Progress} {flag : Flag} {value : String}

theorem of_bind_eq_ok {ε α β : Type} {result : Except ε α} {next : α → Except ε β} {b : β}
    (bound : (do next (← result)) = .ok b) : ∃ a, result = .ok a ∧ next a = .ok b := by
  cases result with
  | error => cases bound
  | ok a => exact ⟨a, rfl, bound⟩

theorem Arguments.InRange.set (inRange : a.InRange) (taken : a.set value flag = .ok a') :
    a'.InRange := by
  cases flag with
  | help | version | withCompensator =>
      obtain rfl := Except.ok.inj taken
      exact ⟨inRange.keys, inRange.jobs, inRange.writesPerJob, inRange.maxRetries,
        inRange.failurePercent, inRange.ends⟩
  | config | workers | completionTimeout | retryBackoff | shutdownPolicy =>
      obtain ⟨_, -, rest⟩ := of_bind_eq_ok taken
      obtain rfl := Except.ok.inj rest
      exact ⟨inRange.keys, inRange.jobs, inRange.writesPerJob, inRange.maxRetries,
        inRange.failurePercent, inRange.ends⟩
  | keys =>
      obtain ⟨n, read, rest⟩ := of_bind_eq_ok taken
      obtain rfl := Except.ok.inj rest
      exact { inRange with keys := lt_of_readWord read }
  | jobs =>
      obtain ⟨n, read, rest⟩ := of_bind_eq_ok taken
      obtain rfl := Except.ok.inj rest
      exact { inRange with jobs := lt_of_readWord read }
  | writesPerJob =>
      obtain ⟨n, read, rest⟩ := of_bind_eq_ok taken
      obtain rfl := Except.ok.inj rest
      exact { inRange with writesPerJob := lt_of_readWord read }
  | maxRetries =>
      obtain ⟨n, read, rest⟩ := of_bind_eq_ok taken
      obtain rfl := Except.ok.inj rest
      exact { inRange with maxRetries := le_of_readUpTo read }
  | failurePercent =>
      obtain ⟨n, read, rest⟩ := of_bind_eq_ok taken
      obtain rfl := Except.ok.inj rest
      exact { inRange with failurePercent := le_of_readUpTo read }
  | writeLatency =>
      obtain ⟨n, read, rest⟩ := of_bind_eq_ok taken
      obtain rfl := Except.ok.inj rest
      have ends := Duration.ends_ofMillis n.toUInt64
      rw [UInt64.toNat_ofNat_of_lt' (lt_of_readWord read)] at ends
      exact { inRange with ends }

/-! ## Reading on -/

/-- The flags keep what is true of the arguments. -/
def Kept (P : Arguments → Prop) : Prop :=
  ∀ ⦃a value flag a'⦄, P a → a.set value flag = .ok a' → P a'

/-- It is true of the arguments that were read, and if reading has ended, it was not with a load. -/
inductive Maintains (P : Arguments → Prop) : Except Invocation Progress → Prop where
  | goesOn {p : Progress} (holds : P p.arguments) : Maintains P (.ok p)
  | ends {invocation : Invocation} (other : ∀ a, invocation ≠ .load a) :
      Maintains P (.error invocation)

theorem Maintains.refuses (error : UsageError) : Maintains P (.error (.refused error)) :=
  .ends fun _ same => by cases same

theorem Maintains.bind {result : Except Invocation Progress}
    {next : Progress → Except Invocation Progress} (maintains : Maintains P result)
    (after : ∀ p, P p.arguments → Maintains P (next p)) : Maintains P (do next (← result)) := by
  cases maintains with
  | goesOn holds => exact after _ holds
  | ends other => exact .ends other

namespace Progress

theorem maintains_take (kept : Kept P) (holds : P p.arguments) (flag : Flag) (value : String) :
    Maintains P (p.take flag value) := by
  unfold take
  split
  · exact .refuses _
  · split
    · rename_i set
      exact .goesOn (kept holds set)
    · exact .refuses _

theorem maintains_settle (kept : Kept P) (holds : P p.arguments) : Maintains P p.settle := by
  unfold settle
  split
  · exact .goesOn holds
  · exact .refuses _
  · exact maintains_take (p := { p with pending := none }) kept holds _ _

theorem maintains_raise (kept : Kept P) (holds : P p.arguments) (full : Bool) (flag : Flag) :
    Maintains P (p.raise full flag) := by
  unfold raise
  split
  · exact .ends fun _ same => by cases same
  · exact .ends fun _ same => by cases same
  · exact maintains_take kept holds _ _

theorem maintains_readNamed (kept : Kept P) (holds : P p.arguments) (name : String)
    (attached : Option String) : Maintains P (p.readNamed name attached) := by
  unfold readNamed
  split
  · exact .refuses _
  · split
    · exact (maintains_settle kept holds).bind fun _ holds => maintains_take kept holds _ _
    · exact (maintains_settle kept holds).bind fun _ holds => .goesOn holds
    · exact .refuses _
    · exact (maintains_settle kept holds).bind fun _ holds => maintains_raise kept holds _ _

theorem maintains_readLetter (kept : Kept P) (holds : P p.arguments) (letter : Char) :
    Maintains P (p.readLetter letter) := by
  unfold readLetter
  split
  · exact .refuses _
  · exact (maintains_settle kept holds).bind fun _ holds => maintains_raise kept holds _ _

theorem maintains_readArgument (kept : Kept P) (holds : P p.arguments) (argument : String) :
    Maintains P (p.readArgument argument) := by
  unfold readArgument
  split
  · dsimp only
    split <;> exact maintains_readNamed kept holds _ _
  · exact maintains_readLetter kept holds _
  · unfold readValue
    split
    · exact .goesOn holds
    · exact .refuses _

theorem of_readAll_nil (kept : Kept P) (holds : P p.arguments) (read : p.readAll [] = .load a) :
    P a := by
  unfold readAll at read
  generalize p.settle = result, maintains_settle kept holds = maintains at read
  cases maintains with
  | goesOn holds => exact Invocation.load.inj read ▸ holds
  | ends other => exact absurd read (other a)

theorem of_readAll (kept : Kept P) (holds : P p.arguments) {args : List String}
    (read : p.readAll args = .load a) : P a := by
  induction args generalizing p with
  | nil => exact of_readAll_nil kept holds read
  | cons argument rest ih =>
      unfold readAll at read
      split at read
      · split at read
        · exact of_readAll_nil kept holds read
        · cases read
      · generalize p.readArgument argument = result,
          maintains_readArgument kept holds argument = maintains at read
        cases maintains with
        | goesOn holds => exact ih holds read
        | ends other => exact absurd read (other a)

end Progress

/-- What is true of no arguments and kept by each flag is true of all arguments that are read. -/
theorem of_ofArguments {args : List String} (kept : Kept P) (start : P {})
    (accepted : Invocation.ofArguments args = .load a) : P a :=
  Progress.of_readAll kept start accepted

theorem inRange_of_ofArguments {args : List String}
    (accepted : Invocation.ofArguments args = .load a) : a.InRange :=
  of_ofArguments (fun _ _ _ _ inRange taken => inRange.set taken)
    ⟨by decide, by decide, by decide, by decide, by decide, by decide⟩ accepted

end KeyedJobs.CommandLine
