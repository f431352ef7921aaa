import KeyedJobs.Text.Digits

/-! # Whole numbers as arguments

A whole number is read digit by digit after at most one sign, and has to stay within limits at each
digit. So of a number that is too large and ends in something else than a digit, the size is the
fault.
-/

namespace KeyedJobs.CommandLine

inductive IntegerFault where
  | empty
  | invalidDigit
  | tooLarge
  | tooSmall
  deriving Repr, DecidableEq

def IntegerFault.text : IntegerFault → String
  | empty => "cannot parse integer from empty string"
  | invalidDigit => "invalid digit found in string"
  | tooLarge => "number too large to fit in target type"
  | tooSmall => "number too small to fit in target type"

/-- How a whole number has to lie. -/
structure Limits where
  lowest : Int
  highest : Int
  deriving Repr, DecidableEq

namespace Limits

/-- Numbers of 64 bits without a sign. -/
def unsigned : Limits := ⟨0, 18446744073709551615⟩

/-- Numbers of 64 bits with a sign. -/
def signed : Limits := ⟨-9223372036854775808, 9223372036854775807⟩

/-- Reads digits into the number that was read so far, each of them counting as `sign`. -/
def readDigits (limits : Limits) (sign number : Int) : List Char → Except IntegerFault Int
  | [] => .ok number
  | c :: digits =>
      if Text.isDigit c then
        let next := 10 * number + sign * (Text.digitValue c : Int)
        if limits.highest < next then .error .tooLarge
        else if next < limits.lowest then .error .tooSmall
        else readDigits limits sign next digits
      else .error .invalidDigit

/-- Reads a whole number. A minus is a sign only where numbers below zero are allowed. -/
def read (limits : Limits) (text : String) : Except IntegerFault Int :=
  match text.toList with
  | [] => .error .empty
  | c :: digits =>
      if (c = '+' ∨ c = '-') ∧ digits = [] then .error .invalidDigit
      else if c = '+' then limits.readDigits 1 0 digits
      else if c = '-' ∧ limits.lowest < 0 then limits.readDigits (-1) 0 digits
      else limits.readDigits 1 0 (c :: digits)

end Limits

end KeyedJobs.CommandLine
