/-! # Floating-point magnitudes

The non-negative numbers that a 64-bit binary floating-point word holds, and arithmetic on them. A
result is the exact quotient rounded to the nearest such number, a tie going to the even
significand. Infinity and signs are not covered: where a result is too large there is none.
-/

namespace KeyedJobs.Decimal

/-- The number `significand * 2 ^ exponent`, in units of `2 ^ -1074`. -/
structure Binary64 where
  significand : Nat
  exponent : Nat
  deriving Repr, DecidableEq

namespace Binary64

/-- Significands stay below `2 ^ 53`, and from half of it on if the exponent is not zero. -/
def significandLimit : Nat := 9007199254740992

/-- The greatest exponent of a finite number. -/
def maxExponent : Nat := 2045

/-- One, in the units that a number is counted in. -/
def unitsOfOne : Nat := Nat.pow 2 1074

def zero : Binary64 := ⟨0, 0⟩

/-- The number, counted in units of `2 ^ -1074`. -/
def units (x : Binary64) : Nat :=
  x.significand * Nat.pow 2 x.exponent

/-- The whole number nearest to a quotient. A tie goes to the even one. -/
def nearest (num den : Nat) : Nat :=
  let floor := num / den
  let twice := 2 * (num % den)
  if twice < den || (twice == den && floor % 2 == 0) then floor else floor + 1

/-- The floating-point number nearest to a quotient. -/
def ofRatio? (num den : Nat) : Option Binary64 :=
  let scaled := num * unitsOfOne
  let exponent := (scaled / den).log2 - 52
  let significand := nearest scaled (den * Nat.pow 2 exponent)
  let rounded : Binary64 :=
    if significand = significandLimit then ⟨significandLimit / 2, exponent + 1⟩
    else ⟨significand, exponent⟩
  if rounded.exponent ≤ maxExponent then some rounded else none

def ofNat? (n : Nat) : Option Binary64 :=
  ofRatio? n 1

def mul? (x y : Binary64) : Option Binary64 :=
  ofRatio? (x.units * y.units) (unitsOfOne * unitsOfOne)

def div? (x y : Binary64) : Option Binary64 :=
  ofRatio? x.units y.units

/-- The greatest power of ten that is at hand to scale with. -/
def maxTenPower : Nat := 308

/-- Multiplies by a power of ten, which is itself rounded before. -/
def scaleUp? (x : Binary64) (power : Nat) : Option Binary64 :=
  if power ≤ maxTenPower then (ofNat? (Nat.pow 10 power)).bind x.mul?
  else if x = zero then some zero
  else none

/-- Divides by a power of ten, by the greatest one at hand as often as needed. Each power is itself
rounded before, and so is each quotient. -/
def scaleDown? (x : Binary64) (power : Nat) : Option Binary64 :=
  if power ≤ maxTenPower then (ofNat? (Nat.pow 10 power)).bind x.div?
  else if x = zero then some zero
  else ((ofNat? (Nat.pow 10 maxTenPower)).bind x.div?).bind (scaleDown? · (power - maxTenPower))
termination_by power
decreasing_by simp only [maxTenPower] at *; omega

/-- The number that a significand and a power of ten give, each rounded before they are combined. -/
def ofScientific? (significand : Nat) : Int → Option Binary64
  | .ofNat power => (ofNat? significand).bind (scaleUp? · power)
  | .negSucc power => (ofNat? significand).bind (scaleDown? · (power + 1))

end Binary64

end KeyedJobs.Decimal
