import KeyedJobs.Decimal.Shortest
import KeyedJobs.Json.Numeral

/-! # The value of a number

A whole number of 64 bits is kept as it is. Any other number is read as floating point, from as many
of its digits as fit 64 bits.
-/

namespace KeyedJobs.Json

inductive Number where
  | natural (n : UInt64)
  /-- A whole number below zero, by its distance from zero. -/
  | negative (distance : Nat)
  | floating (below : Bool) (magnitude : Decimal.Binary64)
  deriving Repr, DecidableEq

namespace Number

open Text (digitValue ofDigits)

/-- Appends digits to a significand while it fits 64 bits. The second result tells how many digits
did not. -/
def absorb (significand : Nat) : List Char → Nat × Nat
  | [] => (significand, 0)
  | c :: digits =>
      let next := 10 * significand + digitValue c
      if next < UInt64.size then absorb next digits else (significand, digits.length + 1)

/-- An exponent beyond this one is not calculated with. -/
def maxExponent : Nat := 2147483647

/-- The floating-point magnitude of a numeral. It has none if it is too large. -/
def magnitude? (numeral : Numeral) : Option Decimal.Binary64 :=
  let (whole, dropped) := absorb 0 numeral.whole
  let (significand, ignored) := absorb whole numeral.fraction
  let written : Int := (dropped : Int) - ((numeral.fraction.length - ignored : Nat) : Int)
  match numeral.exponent with
  | none => Decimal.Binary64.ofScientific? significand written
  | some (below, digits) =>
      let exponent := ofDigits digits
      if maxExponent < exponent then
        if significand = 0 ∨ below then some .zero else none
      else
        Decimal.Binary64.ofScientific? significand
          (if below then written - exponent else written + exponent)

/-- How far below zero a whole number of 64 bits reaches. -/
def greatestDistance : Nat := 9223372036854775808

/-- The value of a numeral that has a sign in front of it if `below`. Zero with a sign is floating
point, as is a whole number too far from zero. -/
def ofNumeral (below : Bool) (numeral : Numeral) : Except Malformed Number :=
  let floating := match magnitude? numeral with
    | some x => .ok (.floating below x)
    | none => .error .numberOutOfRange
  let n := ofDigits numeral.whole
  if numeral.fraction ≠ [] ∨ numeral.exponent.isSome then floating
  else if below then if 1 ≤ n ∧ n ≤ greatestDistance then .ok (.negative n) else floating
  else if n < UInt64.size then .ok (.natural n.toUInt64)
  else floating

/-- Reads a number, after its sign if `below`. -/
def read (below : Bool) (s : List Char) : Except Malformed (Number × Left s) :=
  match Numeral.read .endInValue s with
  | .error e => .error e
  | .ok (numeral, left) => (ofNumeral below numeral).map (·, left)

/-- Numbers are written in full while the point is within sixteen digits or less than five places in
front of them. -/
def layout : Decimal.Layout := ⟨-5, 16⟩

/-- The number with its sign. A floating-point number always has a point or an exponent. -/
def text : Number → String
  | natural n => toString n
  | negative distance => s!"-{distance}"
  | floating below magnitude =>
      (if below then "-" else "") ++ (Decimal.ofBinary64 magnitude).text layout

end Number

end KeyedJobs.Json
