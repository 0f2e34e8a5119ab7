namespace MediaRemote

/-- Quotient to the nearest whole number, a half going to the even neighbour. -/
def roundDiv (num den : Nat) : Nat :=
  let q := num / den
  let twice := 2 * (num % den)
  if twice < den ∨ (twice = den ∧ q % 2 = 0) then q else q + 1

def powerOfTen (k : Nat) : Nat := Nat.pow 10 k

def significandBound : Nat := 1 <<< 53

def fullSignificand : Nat := 1 <<< 52

/-- The unit of the smallest exponent goes this often into 1. -/
def smallestUnits : Nat := 1 <<< 1074

/-- A finite double of value `±significand * 2 ^ (exponent - 1074)`. -/
structure Binary64 where
  negative : Bool
  significand : Nat
  exponent : Nat
  significand_lt : significand < significandBound
  exponent_le : exponent ≤ 2045
  /-- Only the smallest unit may have fewer than 53 significant bits. -/
  normal : fullSignificand ≤ significand ∨ exponent = 0
  deriving DecidableEq, Repr

namespace Binary64

def zero : Binary64 := ⟨false, 0, 0, by decide, by decide, .inr rfl⟩

instance : Inhabited Binary64 := ⟨zero⟩

def maxPowerOfTen : Nat := 308

def ofParts? (negative : Bool) (significand exponent : Nat) : Option Binary64 :=
  if h : significand < significandBound ∧ exponent ≤ 2045 ∧
      (fullSignificand ≤ significand ∨ exponent = 0) then
    some ⟨negative, significand, exponent, h.1, h.2.1, h.2.2⟩
  else none

/-- Unit exponent at which `units` smallest units have at most 53 bits. -/
def unitExponent (units : Nat) : Nat := units.log2 - 52

/-- The double nearest to `±num / den`, a tie going to the even significand; nothing when the
value is out of range. -/
def ofRatio? (negative : Bool) (num den : Nat) : Option Binary64 :=
  let units := num * smallestUnits
  let e := unitExponent (units / den)
  let m := roundDiv units (den <<< e)
  if m = significandBound then ofParts? negative fullSignificand (e + 1)
  else ofParts? negative m e

def units (x : Binary64) : Nat := x.significand <<< x.exponent

def isZero (x : Binary64) : Bool := x.significand = 0

def isNonnegative (x : Binary64) : Bool := !x.negative || x.isZero

def neg (x : Binary64) : Binary64 := { x with negative := !x.negative }

def ofNat (n : Nat) : Binary64 := (ofRatio? false n 1).getD zero

def ofInt (n : Int) : Binary64 :=
  (ofRatio? (n < 0) n.natAbs 1).getD zero

/-- Product of the magnitude and a power of ten that is itself rounded. -/
def timesPowerOfTen? (x : Binary64) (k : Nat) : Option Binary64 :=
  (ofRatio? false (powerOfTen k) 1).bind fun p =>
    ofRatio? x.negative (x.units * p.units) (smallestUnits * smallestUnits)

def overPowerOfTen (x : Binary64) (k : Nat) : Binary64 :=
  ((ofRatio? false (powerOfTen k) 1).bind fun p =>
    ofRatio? x.negative x.units p.units).getD zero

/-- Value of a decimal `significand * 10 ^ exponent`, first the significand and then the scaled
value being rounded; nothing on overflow. Exact whenever the significand has at most 15 digits and
the exponent is between -22 and 22. -/
def ofDecimal? (significand : Nat) (exponent : Int) : Option Binary64 :=
  let x := ofNat significand
  if x.isZero then some x
  else if 0 ≤ exponent then
    if exponent.toNat ≤ maxPowerOfTen then x.timesPowerOfTen? exponent.toNat else none
  else
    let k := (-exponent).toNat
    if k ≤ maxPowerOfTen then some (x.overPowerOfTen k)
    else if k ≤ 2 * maxPowerOfTen then
      some ((x.overPowerOfTen maxPowerOfTen).overPowerOfTen (k - maxPowerOfTen))
    else some zero

end Binary64
end MediaRemote
