import SearchCompiler.Decimal.Parts

/-! # The shortest decimal that reads back

The reals that round to a float form an interval around it, its ends included exactly if the
mantissa is even. The shortest decimal of the float is the point of the coarsest decimal grid that
meets the interval; of two such points the nearer one, and an exact tie is left to the format.
Only the two neighbours of the value on a grid have to be tried: if any point of the grid lies in
the interval, so does one of them. -/

namespace SearchCompiler.Decimal

/-- A decimal number `digits * 10 ^ exponent`. -/
structure Digits where
  digits : Nat
  exponent : Int
  deriving DecidableEq, Repr

/-- Which of two equally near decimals is written. -/
inductive Tie where
  | up
  | even
  deriving DecidableEq, Repr

namespace Shortest

/-- The interval of a float on a decimal grid, all three numbers over one denominator. -/
structure Interval where
  lower : Nat
  value : Nat
  upper : Nat
  unit : Nat
  closed : Bool

/-- The interval of `mantissa * 2 ^ exponent` in units of `10 ^ place`. The gap below a power of two
is half the gap above it, unless the power is the least one. -/
def interval (mantissa : Nat) (exponent place : Int) : Interval :=
  let scale := Nat.pow 2 (exponent - 2).toNat * Nat.pow 10 (-place).toNat
  let below := if mantissa = leastNormal ∧ -1074 < exponent then 1 else 2
  { lower := (4 * mantissa - below) * scale
    value := 4 * mantissa * scale
    upper := (4 * mantissa + 2) * scale
    unit := Nat.pow 2 (2 - exponent).toNat * Nat.pow 10 place.toNat
    closed := mantissa % 2 == 0 }

/-- Does a point of the grid round to the float? -/
def Interval.holds (i : Interval) (k : Nat) : Bool :=
  if i.closed then i.lower ≤ k * i.unit && k * i.unit ≤ i.upper
  else i.lower < k * i.unit && k * i.unit < i.upper

/-- The nearer neighbour of the value on the grid. -/
def Interval.nearer (i : Interval) (tie : Tie) : Nat :=
  let k := i.value / i.unit
  let twice := 2 * (i.value - k * i.unit)
  if twice < i.unit then k
  else if i.unit < twice then k + 1
  else
    match tie with
    | .up => k + 1
    | .even => if k % 2 = 0 then k else k + 1

/-- The point of the grid to write, if one of the two neighbours rounds to the float. -/
def Interval.pick? (i : Interval) (tie : Tie) : Option Nat :=
  let k := i.value / i.unit
  match i.holds k, i.holds (k + 1) with
  | true, true => some (i.nearer tie)
  | true, false => some k
  | false, true => some (k + 1)
  | false, false => none

/-- Tries one grid after the other, each ten times as fine as the one before; the last one is taken
as it comes. -/
def search (mantissa : Nat) (exponent : Int) (tie : Tie) : Nat → Int → Digits
  | 0, place => ⟨(interval mantissa exponent place).nearer tie, place⟩
  | grids + 1, place =>
    match (interval mantissa exponent place).pick? tie with
    | some k => ⟨k, place⟩
    | none => search mantissa exponent tie grids (place - 1)

/-- A place at or above that of the first digit. -/
def firstPlace (mantissa : Nat) (exponent : Int) : Int :=
  let length (n : Nat) : Int := (Nat.toDigits 10 n).length
  length (mantissa * Nat.pow 2 exponent.toNat) - length (Nat.pow 2 (-exponent).toNat)

/-- A decimal without zeros at its end. -/
def stripped (digits : Nat) (exponent : Int) : Digits :=
  if _h : digits ≠ 0 ∧ digits % 10 = 0 then stripped (digits / 10) (exponent + 1)
  else ⟨digits, exponent⟩
termination_by digits
decreasing_by omega

end Shortest

/-- **The shortest decimal of `mantissa * 2 ^ exponent`**, the magnitude of a float. Twenty grids
are enough, since seventeen digits tell any two floats apart. -/
def shortest (mantissa : Nat) (exponent : Int) (tie : Tie) : Digits :=
  if mantissa = 0 then ⟨0, 0⟩
  else
    let d := Shortest.search mantissa exponent tie 20 (Shortest.firstPlace mantissa exponent)
    Shortest.stripped d.digits d.exponent

end SearchCompiler.Decimal
