namespace FieldRules

/-- The whole number nearest to `num / den`; a half goes to the even neighbour. -/
def roundHalfEven (num den : Nat) : Nat :=
  let whole := num / den
  let twice := 2 * (num % den)
  if twice < den then whole
  else if den < twice then whole + 1
  else whole + whole % 2

namespace Double

/-- How many sizes of the 64-bit binary format lie between a size and its double. -/
def binade : Nat := 0x10000000000000

def finiteSizes : Nat := 2047 * binade

end Double

/-- A finite number of the 64-bit binary format. `rank` is the place of its size
among the sizes of the format, counted from zero: in the first two binades all
sizes are whole numbers of units, and from there on each doubling of the size
doubles the gap. -/
structure Double where
  negative : Bool
  rank : Nat
  finite : rank < Double.finiteSizes
deriving DecidableEq

namespace Double

/-! Sizes are measured in units of `2 ^ -1074`, the least positive size, so every
finite double is a whole number of units and comparisons are exact. -/

/-- The size that has a given rank, in units. -/
def sizeOfRank (rank : Nat) : Nat :=
  let low := rank % binade
  match rank / binade with
  | 0 => low
  | field + 1 => (binade + low) <<< field

def one : Nat := 1 <<< 1074

/-- The rank of the size nearest to `num / den`; a half goes to the even rank.
A ratio too large for the format gets a rank beyond the finite ones. -/
def nearestRank (num den : Nat) : Nat :=
  let units := num * one
  let shift := (units / den).log2 - 52
  shift * binade + roundHalfEven units (den <<< shift)

def size (d : Double) : Nat := sizeOfRank d.rank

/-- The value in units. -/
def units (d : Double) : Int :=
  if d.negative then -(d.size : Int) else d.size

def ofRank? (negative : Bool) (rank : Nat) : Option Double :=
  if finite : rank < finiteSizes then some ⟨negative, rank, finite⟩ else none

def zero (negative : Bool) : Double := ⟨negative, 0, by decide⟩

def isZero (d : Double) : Bool := d.rank == 0

/-- The two zeros are the same number. -/
def same (a b : Double) : Bool := a.units == b.units

def isWhole (d : Double) : Bool := d.size % one == 0

/-- The double nearest to `num / den`, if it is finite. -/
def ofRatio? (negative : Bool) (num den : Nat) : Option Double :=
  ofRank? negative (nearestRank num den)

end Double

end FieldRules

namespace FieldRules.Double

/-! Numerals are read in steps that are each rounded: the leading digits that fit
64 bits give a double, and that is multiplied or divided by the double nearest to
a power of ten. The result can miss the nearest double by a unit in the last
place; `ofNumeral?` rounds only once. -/

/-- The greatest power of ten that is finite as a double. -/
def greatestPower : Nat := 308

private def powerRank (exponent : Nat) : Nat := nearestRank (Nat.pow 10 exponent) 1

private def timesPower (rank exponent : Nat) : Nat :=
  nearestRank (sizeOfRank rank * sizeOfRank (powerRank exponent)) (one * one)

private def overPower (rank exponent : Nat) : Nat :=
  nearestRank (sizeOfRank rank) (sizeOfRank (powerRank exponent))

private def scaleUp (rank exponent : Nat) : Nat :=
  if exponent ≤ greatestPower then timesPower rank exponent
  else if rank = 0 then 0
  else finiteSizes

/-- Small numbers are divided by the greatest power until the rest of the
exponent is within reach. -/
private def scaleDown (rank exponent : Nat) : Nat :=
  if exponent ≤ greatestPower then overPower rank exponent
  else if rank = 0 then 0
  else scaleDown (overPower rank greatestPower) (exponent - greatestPower)
termination_by exponent
decreasing_by
  simp only [greatestPower] at *
  omega

/-- `significand * 10 ^ exponent`, rounded at each step; nothing if it is too
large for a double. -/
def ofScaled? (negative : Bool) (significand : Nat) (exponent : Int) : Option Double :=
  let rank := nearestRank significand 1
  ofRank? negative <|
    if exponent < 0 then scaleDown rank exponent.natAbs else scaleUp rank exponent.toNat

/-- `significand * 10 ^ exponent`, rounded once; nothing if it is too large. -/
def ofNumeral? (negative : Bool) (significand : Nat) (exponent : Int) : Option Double :=
  if significand = 0 then some (zero negative)
  else if exponent < -((Nat.toDigits 10 significand).length + 400 : Int) then
    some (zero negative)
  else if exponent < 0 then ofRatio? negative significand (Nat.pow 10 exponent.natAbs)
  else if 400 < exponent then none
  else ofRatio? negative (significand * Nat.pow 10 exponent.toNat) 1

end FieldRules.Double

namespace FieldRules

/-- The number `digits * 10 ^ exponent`. -/
structure Decimal where
  digits : Nat
  exponent : Int
deriving DecidableEq

namespace Decimal

/-! The decimal with the fewest digits that lies closer to a double than to any
other double, and how such decimals are written. -/

/-- Powers of ten above and below a fraction line, for a signed exponent. -/
private def tenths (exponent : Int) : Nat × Nat :=
  if exponent < 0 then (1, Nat.pow 10 exponent.natAbs) else (Nat.pow 10 exponent.toNat, 1)

/-- Everything that is rounded to one double: the sizes from `low` to `high`,
in half units, with both ends or with neither. -/
structure Interval where
  low : Nat
  middle : Nat
  high : Nat
  closed : Bool

def Interval.ofRank (rank : Nat) : Interval where
  low := Double.sizeOfRank (rank - 1) + Double.sizeOfRank rank
  middle := 2 * Double.sizeOfRank rank
  high := Double.sizeOfRank rank + Double.sizeOfRank (rank + 1)
  closed := rank % 2 == 0

def Interval.contains (interval : Interval) (point scale : Nat) : Bool :=
  if interval.closed then
    interval.low * scale ≤ point && point ≤ interval.high * scale
  else
    interval.low * scale < point && point < interval.high * scale

/-- The multiple of `10 ^ exponent` in the interval that is nearest to its
middle, if there is one; it is a neighbour of the middle. -/
def Interval.nearestOnGrid? (interval : Interval) (exponent : Int) : Option Nat :=
  let (above, scale) := tenths exponent
  let step := above * (2 * Double.one)
  let middle := interval.middle * scale
  let below := middle / step
  let lower := interval.contains (below * step) scale
  let upper := interval.contains ((below + 1) * step) scale
  let rest := middle % step
  if lower && upper then
    some (if 2 * rest < step ∨ (2 * rest = step ∧ below % 2 = 0) then below else below + 1)
  else if lower then some below
  else if upper then some (below + 1)
  else none

/-- The place of the first digit of a positive number of half units. -/
def leadingPlace (halfUnits : Nat) : Int :=
  let shifted := halfUnits * Nat.pow 10 340 / (2 * Double.one)
  ((Nat.toDigits 10 shifted).length : Int) - 341

/-- Takes `count` digits off the end while they are zero. -/
def dropZeros : (count : Nat) → Decimal → Decimal
  | 0, decimal => decimal
  | count + 1, decimal =>
      if decimal.digits % 10 = 0 ∧ decimal.digits ≠ 0 then
        dropZeros count ⟨decimal.digits / 10, decimal.exponent + 1⟩
      else decimal

/-- Seventeen digits always suffice, so the search over coarser grids first ends
with the fewest digits. -/
def shortest (rank : Nat) : Decimal :=
  if rank = 0 then ⟨0, 0⟩ else
    let interval := Interval.ofRank rank
    let place := leadingPlace interval.middle
    let found := (List.range 17).findSome? fun (more : Nat) =>
      (interval.nearestOnGrid? (place - more)).map fun digits =>
        dropZeros 17 ⟨digits, place - more⟩
    found.getD ⟨0, 0⟩

/-- How a decimal is written: with an exponent unless the place of the point is
within bounds, and with a zero after the point of a whole number or without. -/
structure Style where
  positional : Int → Bool
  pointZero : Bool

private def zeros (count : Nat) : String := String.ofList (List.replicate count '0')

/-- `point` counts the digits before the point, negative if zeros follow it. -/
def Style.write (style : Style) (decimal : Decimal) : String :=
  if decimal.digits = 0 then (if style.pointZero then "0.0" else "0") else
    let digits := Nat.toDigits 10 decimal.digits
    let point := (digits.length : Int) + decimal.exponent
    if style.positional point then
      if point ≤ 0 then "0." ++ zeros point.natAbs ++ String.ofList digits
      else if digits.length ≤ point then
        String.ofList digits ++ zeros (point.toNat - digits.length)
          ++ (if style.pointZero then ".0" else "")
      else
        String.ofList (digits.take point.toNat) ++ "."
          ++ String.ofList (digits.drop point.toNat)
    else
      let exponent := point - 1
      let mantissa := match digits with
        | first :: second :: rest => String.ofList (first :: '.' :: second :: rest)
        | _ => String.ofList digits
      mantissa ++ (if exponent < 0 then "e-" else "e+") ++ toString exponent.natAbs

end Decimal

def Double.write (style : Decimal.Style) (d : Double) : String :=
  (if d.negative then "-" else "") ++ style.write (Decimal.shortest d.rank)

end FieldRules
