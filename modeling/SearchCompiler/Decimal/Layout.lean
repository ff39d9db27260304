import SearchCompiler.Decimal.Shortest

/-! # Decimal layouts

How the digits of a float are set out: where positional notation ends, whether a whole number shows
its point, and what stands for the values that are no numbers. This library writes floats in two
layouts, one for JSON documents and one for running text. -/

namespace SearchCompiler.Decimal

/-- The decisions of a decimal format. The *point position* of a number is the count of digits
before its point, zero or negative for numbers below one tenth. -/
structure Layout where
  /-- Is `.0` written after a whole number? -/
  showsPoint : Bool
  /-- Is a number of this point position written without an exponent? -/
  isPositional : Int → Bool
  tie : Tie
  nan : String
  /-- The text of an infinity, by its sign. -/
  infinite : Bool → String

/-- **JSON documents:** a point or an exponent always; positional from `0.00001` up to sixteen
digits before the point; a tie goes to the even digit. What is no number is `null`. -/
def Layout.json : Layout where
  showsPoint := true
  isPositional p := decide (-5 < p) && decide (p ≤ 16)
  tie := .even
  nan := "null"
  infinite _ := "null"

/-- **Running text:** never an exponent, no point in a whole number, a tie goes up. -/
def Layout.plain : Layout where
  showsPoint := false
  isPositional _ := true
  tie := .up
  nan := "NaN"
  infinite negative := if negative then "-inf" else "inf"

namespace Layout

/-- Digits without an exponent. -/
def positional (l : Layout) (ds : List Char) (exponent : Int) : List Char :=
  let point := ds.length + exponent
  if 0 ≤ exponent then
    ds ++ List.replicate exponent.toNat '0' ++ if l.showsPoint then ['.', '0'] else []
  else if 0 < point then ds.take point.toNat ++ '.' :: ds.drop point.toNat
  else '0' :: '.' :: List.replicate (-point).toNat '0' ++ ds

/-- Digits with an exponent: one digit before the point, the sign of the exponent written out. -/
def scientific (ds : List Char) (exponent : Int) : List Char :=
  let shown := ds.length + exponent - 1
  let mark := if shown < 0 then '-' else '+'
  let tail := 'e' :: mark :: Nat.toDigits 10 shown.natAbs
  match ds with
  | [] => tail
  | [d] => d :: tail
  | d :: rest => d :: '.' :: rest ++ tail

/-- The text of a magnitude. -/
def magnitude (l : Layout) (d : Digits) : List Char :=
  let ds := Nat.toDigits 10 d.digits
  if l.isPositional (ds.length + d.exponent) then l.positional ds d.exponent
  else scientific ds d.exponent

/-- **The text of a float.** -/
def render (l : Layout) (x : Float) : String :=
  match parts x with
  | .nan => l.nan
  | .infinite negative => l.infinite negative
  | .finite negative mantissa exponent =>
    let text := l.magnitude (shortest mantissa exponent l.tie)
    String.ofList (if negative then '-' :: text else text)

end Layout

end SearchCompiler.Decimal
