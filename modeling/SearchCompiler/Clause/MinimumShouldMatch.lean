import SearchCompiler.Decimal.Layout

/-! # The least number of alternatives to match -/

namespace SearchCompiler

/-- **How many alternatives have to match**: a count, a share, or a text that is taken as it is. -/
inductive MinimumShouldMatch where
  | count (x : Float)
  | text (s : String)

namespace MinimumShouldMatch

/-- A share as a percentage with at most six digits after the point. -/
def percentage (x : Float) : String :=
  Decimal.Layout.plain.render ((x * 100 * 1e6).round / 1e6) ++ "%"

/-- A whole number without a point, kept in the range of 64-bit integers, or any other number. -/
def countText (x : Float) : String :=
  match Decimal.integerPart? x with
  | some (_, true) => toString (Decimal.clampedInt64 x).toInt
  | _ => Decimal.Layout.plain.render x

/-- **The text in a document.** Zero counts as one, and what lies between -1 and 1 is a share. -/
def render : MinimumShouldMatch → String
  | text s => s
  | count x =>
    if x == 0 then "1" else if -1 < x ∧ x < 1 then percentage x else countText x

end MinimumShouldMatch

end SearchCompiler
