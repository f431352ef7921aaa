import KeyedJobs.Decimal.Binary64

/-! # The fewest digits that read back

A floating-point number is written with as few decimal digits as still round to it, and of those the
ones nearest to it. How digits are laid out around the point is a choice of the format, kept in
`Layout`.
-/

namespace KeyedJobs

/-- The number `digits * 10 ^ exponent`. -/
structure Decimal where
  digits : Nat
  exponent : Int
  deriving Repr, DecidableEq

namespace Decimal

/-- The numbers that round to a given one, as a range of quarters of a step between neighbours.
Below a significand that is a power of two the step is half as long. The ends belong to the range if
`closed`. -/
structure Rounding where
  low : Nat
  high : Nat
  closed : Bool

def Binary64.rounding (x : Binary64) : Rounding :=
  let below := if x.significand = Binary64.significandLimit / 2 ∧ x.exponent ≠ 0 then 1 else 2
  ⟨4 * x.significand - below, 4 * x.significand + 2, x.significand % 2 = 0⟩

/-- How many decimal digits a whole number has. -/
def digitCount (n : Nat) : Nat :=
  (Nat.toDigits 10 n).length

/-- Where the point stands: the least power of ten that is greater than a number other than zero. -/
def pointOf (num den : Nat) : Int :=
  if den ≤ num then digitCount (num / den)
  else 1 - (digitCount ((den + num - 1) / num - 1) : Int)

/-- A quotient of two whole numbers in units of a power of ten, as such a quotient again. -/
def inUnits (num den : Nat) : Int → Nat × Nat
  | .ofNat power => (num, den * Nat.pow 10 power)
  | .negSucc power => (num * Nat.pow 10 (power + 1), den)

/-- Of the multiples of a power of ten that enclose a number, the nearer one that rounds to it. -/
def onGrid? (x : Binary64) (power : Int) : Option Decimal :=
  let (num, den) := inUnits (Nat.pow 2 x.exponent) (4 * Binary64.unitsOfOne) power
  let rounding := x.rounding
  let fits (n : Nat) : Bool :=
    let place := n * den
    if rounding.closed then rounding.low * num ≤ place && place ≤ rounding.high * num
    else rounding.low * num < place && place < rounding.high * num
  let below := 4 * x.significand * num / den
  let twice := 2 * (4 * x.significand * num % den)
  let nearer := if twice < den || (twice == den && below % 2 == 0) then [below, below + 1]
    else [below + 1, below]
  (nearer.find? fits).map fun n => ⟨n, power⟩

/-- The digits without the zeros at their end. -/
def trim (d : Decimal) : Decimal :=
  let ending := (Nat.toDigits 10 d.digits).reverse.takeWhile (· == '0') |>.length
  if d.digits = 0 then ⟨0, 0⟩ else ⟨d.digits / Nat.pow 10 ending, d.exponent + ending⟩

/-- Digits that always tell a floating-point number from every other. -/
def enoughDigits : Nat := 17

/-- The decimal number with the fewest digits that rounds to a floating-point number. -/
def ofBinary64 (x : Binary64) : Decimal :=
  if x.significand = 0 then ⟨0, 0⟩
  else
    let point := pointOf x.units Binary64.unitsOfOne
    let grids := (List.range enoughDigits).map fun (count : Nat) => point - 1 - (count : Int)
    ((grids.findSome? (onGrid? x)).getD ⟨0, 0⟩).trim

/-- How digits are laid out. A number is written out in full if its point stands after more than
`lowest` and at most `highest` digits, counted from its first digit, and with an exponent otherwise.
-/
structure Layout where
  lowest : Int
  highest : Int

/-- A number with an exponent: one digit before the point, and a sign in front of the exponent. -/
def scientific (digits : List Char) (exponent : Int) : String :=
  let point := match digits.drop 1 with
    | [] => ""
    | fraction => "." ++ String.ofList fraction
  let sign := if exponent < 0 then "-" else "+"
  String.ofList (digits.take 1) ++ point ++ "e" ++ sign ++ toString exponent.natAbs

/-- A number laid out. One written in full has a point and at least one digit on each side of it. -/
def text (layout : Layout) (d : Decimal) : String :=
  let digits := Nat.toDigits 10 d.digits
  let point := d.exponent + digits.length
  let zeros (n : Int) : List Char := List.replicate n.toNat '0'
  if d.digits = 0 then "0.0"
  else if point ≤ layout.lowest ∨ layout.highest < point then scientific digits (point - 1)
  else if point ≤ 0 then String.ofList ('0' :: '.' :: zeros (-point) ++ digits)
  else if d.exponent < 0 then
    String.ofList (digits.take point.toNat ++ '.' :: digits.drop point.toNat)
  else String.ofList (digits ++ zeros d.exponent ++ ['.', '0'])

end Decimal

end KeyedJobs
