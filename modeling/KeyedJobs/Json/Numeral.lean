import KeyedJobs.Json.Scan
import KeyedJobs.Text.Digits

/-! # Numerals

How a number is spelled: a whole part without a leading zero, then, if they are there, a fraction
and an exponent. Reading a numeral takes its digits apart and does not ask for its value.
-/

namespace KeyedJobs.Json

open Text (isDigit)

/-- The digits of a number. Those of the fraction are empty if it has none. -/
structure Numeral where
  whole : List Char
  fraction : List Char
  /-- Whether the exponent is below zero, and its digits. -/
  exponent : Option (Bool × List Char)
  deriving Repr, DecidableEq

/-- What is left of a text after a part that may be empty. -/
abbrev Rest (s : List Char) := { rest : List Char // rest.length ≤ s.length }

/-- Takes the digits in front. -/
def takeDigits (s : List Char) : List Char × Rest s :=
  (s.takeWhile isDigit, ⟨s.dropWhile isDigit, (List.dropWhile_suffix isDigit).length_le⟩)

/-- Takes the digits in front, of which there has to be one. The fault of a text that ends before it
is given. -/
def takeSomeDigits (atEnd : Malformed) (s : List Char) : Except Malformed (List Char × Rest s) :=
  match s with
  | [] => .error atEnd
  | c :: s => if isDigit c then .ok (takeDigits (c :: s)) else .error .invalidNumber

/-- Reads the whole part. -/
def readWhole (atEnd : Malformed) (s : List Char) : Except Malformed (List Char × Left s) :=
  match s with
  | [] => .error atEnd
  | '0' :: s =>
      if s.head?.any isDigit then .error .invalidNumber else .ok (['0'], .behind '0' s)
  | c :: s =>
      if isDigit c then
        let (digits, rest) := takeDigits s
        .ok (c :: digits, ⟨rest.val, Nat.lt_succ_of_le rest.property⟩)
      else .error .invalidNumber

/-- Reads the fraction, if there is a point. -/
def readFraction (atEnd : Malformed) (s : List Char) : Except Malformed (List Char × Rest s) :=
  match s with
  | '.' :: s =>
      (takeSomeDigits atEnd s).map fun (digits, rest) =>
        (digits, ⟨rest.val, Nat.le_succ_of_le rest.property⟩)
  | s => .ok ([], ⟨s, Nat.le_refl _⟩)

/-- Reads the sign of an exponent: whether it is below zero. -/
def readSign (s : List Char) : Bool × Rest s :=
  match s with
  | '-' :: s => (true, ⟨s, Nat.le_succ _⟩)
  | '+' :: s => (false, ⟨s, Nat.le_succ _⟩)
  | s => (false, ⟨s, Nat.le_refl _⟩)

/-- Reads the exponent, if there is a letter for it. -/
def readExponent (atEnd : Malformed) (s : List Char) :
    Except Malformed (Option (Bool × List Char) × Rest s) :=
  match s with
  | [] => .ok (none, ⟨[], Nat.le_refl _⟩)
  | c :: s =>
      if c = 'e' ∨ c = 'E' then
        let (below, signed) := readSign s
        (takeSomeDigits atEnd signed.val).map fun (digits, rest) =>
          (some (below, digits),
            ⟨rest.val, Nat.le_succ_of_le (Nat.le_trans rest.property signed.property)⟩)
      else .ok (none, ⟨c :: s, Nat.le_refl _⟩)

/-- Reads a numeral, after its sign. -/
def Numeral.read (atEnd : Malformed) (s : List Char) : Except Malformed (Numeral × Left s) :=
  match readWhole atEnd s with
  | .error e => .error e
  | .ok (whole, left) =>
      match readFraction atEnd left.rest with
      | .error e => .error e
      | .ok (fraction, afterFraction) =>
          (readExponent atEnd afterFraction.val).map fun (exponent, rest) =>
            (⟨whole, fraction, exponent⟩, ⟨rest.val, Nat.lt_of_le_of_lt
              (Nat.le_trans rest.property afterFraction.property) left.shorter⟩)

end KeyedJobs.Json
