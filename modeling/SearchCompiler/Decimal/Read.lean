import SearchCompiler.Numeral

/-! # Floats in text

`readFloat?` reads a decimal in full precision, the result being the float nearest to the written
number. The grammar is an optional sign, then digits with an optional point (at least one digit on
one side of it) and an optional exponent, or one of the words `inf`, `infinity` and `nan` in any
case. -/

namespace SearchCompiler.Decimal

open Numeral (value)

/-- The float nearest to `m * 10 ^ e`. The bounds keep the powers of ten small: beyond them the
number is above every float, or below half the least one. -/
def nearest (m : Nat) (e : Int) : Float :=
  let length : Int := (Nat.toDigits 10 m).length
  if m = 0 then 0
  else if 400 < length + e then Float.ofBits 0x7FF0000000000000
  else if length + e < -400 then 0
  else Float.ofScientific m (decide (e < 0)) e.natAbs

/-- The digits at the start of a text and what follows them. -/
def digitRun (cs : List Char) : List Char × List Char :=
  (cs.takeWhile Char.isDigit, cs.dropWhile Char.isDigit)

/-- An exponent part, or nothing at the end of the text. -/
def exponentPart? : List Char → Option Int
  | [] => some 0
  | c :: rest => if c = 'e' ∨ c = 'E' then Numeral.readInt? rest else none

/-- An unsigned decimal. -/
def unsigned? (cs : List Char) : Option Float :=
  let (whole, rest) := digitRun cs
  let (fraction, rest) := match rest with
    | '.' :: rest => digitRun rest
    | rest => ([], rest)
  if whole.isEmpty && fraction.isEmpty then none
  else (exponentPart? rest).map fun e => nearest (value (whole ++ fraction)) (e - fraction.length)

/-- The words for values that are no numbers. -/
def word? (cs : List Char) : Option Float :=
  match String.ofList (cs.map Char.toLower) with
  | "inf" | "infinity" => some (Float.ofBits 0x7FF0000000000000)
  | "nan" => some (Float.ofBits 0x7FF8000000000000)
  | _ => none

/-- A word or an unsigned decimal. -/
def magnitude? (cs : List Char) : Option Float := (word? cs).or (unsigned? cs)

/-- **Reads a float.** -/
def readFloat? : List Char → Option Float
  | '+' :: cs => magnitude? cs
  | '-' :: cs => (magnitude? cs).map fun x => -x
  | cs => magnitude? cs

end SearchCompiler.Decimal
