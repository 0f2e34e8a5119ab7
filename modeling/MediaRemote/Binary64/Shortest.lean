import MediaRemote.Binary64

namespace MediaRemote

/-- Number of decimal digits, zero having one. -/
def digitCount (n : Nat) : Nat := (Nat.toDigits 10 n).length

structure Decimal where
  digits : Nat
  exponent : Int
  deriving DecidableEq, Repr

namespace Binary64

/-- Four times the magnitude and the ends of the interval of what rounds to it, in smallest units.
The ends belong to it when the significand is even. -/
structure Interval where
  low : Nat
  value : Nat
  high : Nat
  closed : Bool

/-- The lower neighbour of a power of two is only half a unit away. -/
def interval (x : Binary64) : Interval :=
  let unit := 1 <<< x.exponent
  let below := if x.significand = fullSignificand ∧ 0 < x.exponent then unit else 2 * unit
  { low := 4 * x.significand * unit - below
    value := 4 * x.significand * unit
    high := 4 * x.significand * unit + 2 * unit
    closed := x.significand % 2 = 0 }

def intervalDen : Nat := 4 * smallestUnits

/-- Both numbers of a fraction, times the power of ten that makes the grid `10 ^ k` whole. -/
def onGrid (k : Int) (num den : Nat) : Nat × Nat :=
  if 0 ≤ k then (num, den * powerOfTen k.toNat) else (num * powerOfTen (-k).toNat, den)

def Interval.contains (i : Interval) (k : Int) (c : Nat) : Bool :=
  let low := onGrid k i.low intervalDen
  let high := onGrid k i.high intervalDen
  let inside := low.1 < c * low.2 ∧ c * high.2 < high.1
  let onEnd := i.closed ∧ low.1 ≤ c * low.2 ∧ c * high.2 ≤ high.1
  inside ∨ onEnd

/-- Exponent of the leading digit of `num / den`, for a positive fraction. -/
def leadingExponent (num den : Nat) : Int :=
  if den ≤ num then (digitCount (num / den) : Int) - 1
  else
    let d := digitCount (den / num)
    if num * powerOfTen (d - 1) = den then 1 - (d : Int) else -(d : Int)

/-- Nearest of the two neighbours on the grid `10 ^ k` that lie in the interval. -/
def Interval.nearest? (i : Interval) (k : Int) : Option Nat :=
  let v := onGrid k i.value intervalDen
  let c := v.1 / v.2
  let lowerFirst := 2 * (v.1 % v.2) ≤ v.2
  match i.contains k c, i.contains k (c + 1) with
  | true, true => some (if lowerFirst then c else c + 1)
  | true, false => some c
  | false, true => some (c + 1)
  | false, false => none

def Interval.search (i : Interval) (leading : Int) : Nat → Nat → Decimal
  | 0, _ => ⟨0, 0⟩
  | fuel + 1, places =>
    let k := leading - places
    match i.nearest? k with
    | some c => ⟨c, k⟩
    | none => i.search leading fuel (places + 1)

/-- The decimal with the fewest digits among those that round to the double, and of these the
nearest to it. Seventeen digits tell any two doubles apart, so the search ends within that many
grids. -/
def shortest (x : Binary64) : Decimal :=
  if x.isZero then ⟨0, 0⟩
  else
    let i := x.interval
    i.search (leadingExponent i.value intervalDen) 17 0

end Binary64

structure DecimalLayout where
  /-- Exponents of the leading digit that are written without an exponent. -/
  plainFrom : Int
  plainTo : Int
  exponentMark : Char
  positiveSign : List Char
  /-- What stands for an empty fraction in plain text. -/
  emptyFraction : List Char

namespace DecimalLayout

def plain (l : DecimalLayout) (digits : List Char) (leading : Int) : List Char :=
  if leading < 0 then
    '0' :: '.' :: (List.replicate ((-leading).toNat - 1) '0' ++ digits)
  else
    let whole := leading.toNat + 1
    let fraction := digits.drop whole
    digits.take whole ++ List.replicate (whole - digits.length) '0' ++
      (if fraction.isEmpty then l.emptyFraction else '.' :: fraction)

def scientific (l : DecimalLayout) (digits : List Char) (leading : Int) : List Char :=
  let fraction := digits.drop 1
  digits.take 1 ++ (if fraction.isEmpty then [] else '.' :: fraction) ++
    l.exponentMark :: ((if leading < 0 then ['-'] else l.positiveSign) ++
      Nat.toDigits 10 leading.natAbs)

def text (l : DecimalLayout) (d : Decimal) : List Char :=
  let digits := Nat.toDigits 10 d.digits
  let leading := d.exponent + digits.length - 1
  let significant := (digits.reverse.dropWhile (· = '0')).reverse
  let digits := if significant.isEmpty then ['0'] else significant
  if l.plainFrom ≤ leading ∧ leading ≤ l.plainTo then l.plain digits leading
  else l.scientific digits leading

end DecimalLayout
end MediaRemote
