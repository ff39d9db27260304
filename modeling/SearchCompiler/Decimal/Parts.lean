/-! # What a float stands for

A 64-bit float is a mark (not a number, an infinity) or a sign with a magnitude
`mantissa * 2 ^ exponent`, read off its bits. Everything this library needs to know about the value
of a float (its decimal text, its integer part) is computed from these parts in exact arithmetic. -/

namespace SearchCompiler.Decimal

/-- The value of a float. The sign of a number is part of it, so that the two zeros differ. -/
inductive Parts where
  | nan
  | infinite (negative : Bool)
  | finite (negative : Bool) (mantissa : Nat) (exponent : Int)
  deriving DecidableEq, Repr

/-- The least mantissa of a normal number, two to the power of 52. -/
def leastNormal : Nat := 4503599627370496

/-- **The parts of a float:** one bit of sign, eleven of exponent and 52 of fraction. -/
def parts (x : Float) : Parts :=
  let bits := x.toBits.toNat
  let negative := decide (9223372036854775808 ≤ bits)
  let biased : Nat := bits / leastNormal % 2048
  let fraction : Nat := bits % leastNormal
  if biased = 2047 then
    if fraction = 0 then .infinite negative else .nan
  else if biased = 0 then .finite negative fraction (-1074)
  else .finite negative (leastNormal + fraction) ((biased : Int) - 1075)

/-- A number times a power of two: the integer part, and whether anything was cut off. -/
def Parts.scaled (mantissa : Nat) (exponent : Int) : Nat × Bool :=
  if 0 ≤ exponent then (mantissa * Nat.pow 2 exponent.toNat, true)
  else
    let unit := Nat.pow 2 (-exponent).toNat
    (mantissa / unit, mantissa % unit = 0)

/-- The integer part of a float, cut toward zero, with a flag that says whether it is the whole
value. Nothing for NaN and the infinities. -/
def integerPart? (x : Float) : Option (Int × Bool) :=
  match parts x with
  | .finite negative mantissa exponent =>
    let (n, exact) := Parts.scaled mantissa exponent
    some (if negative then -(n : Int) else n, exact)
  | _ => none

/-- Is this the float of a number? -/
def isFinite (x : Float) : Bool :=
  match parts x with
  | .finite .. => true
  | _ => false

/-- The least 64-bit integer. -/
def leastInt64 : Int := -9223372036854775808

/-- The greatest 64-bit integer. -/
def greatestInt64 : Int := 9223372036854775807

/-- Does the value lie in the range of 64-bit integers, that is, between the least one and the
successor of the greatest? -/
def inInt64Range (x : Float) : Bool :=
  match integerPart? x with
  | some (n, exact) => (leastInt64 < n || (n == leastInt64 && exact)) && n ≤ greatestInt64
  | none => false

/-- The 64-bit integer nearest to a value. -/
def clamped (n : Int) : Int64 :=
  if n < leastInt64 then Int64.minValue
  else if greatestInt64 < n then Int64.maxValue
  else Int64.ofInt n

/-- The 64-bit integer nearest to the value on the side of zero, the ends of the range standing for
everything beyond them and zero for NaN. -/
def clampedInt64 (x : Float) : Int64 :=
  match parts x with
  | .nan => 0
  | .infinite negative => if negative then Int64.minValue else Int64.maxValue
  | .finite .. =>
    match integerPart? x with
    | some (n, _) => clamped n
    | none => 0

end SearchCompiler.Decimal
