import SearchCompiler.Text.Blank
import SearchCompiler.Text.DecimalDigit
import SearchCompiler.Time.Date
import SearchCompiler.Time.Span

/-! # Bounds of time ranges

A bound given as text is a date `YYYY?MM?DD`, with anything after it on the same line and any
character that is no digit between the numbers, or a day relative to the present one: `now`, or
`now` with a signed number of units. Years, months, weeks and days are units of 365, 30, 7 and 1
days; hours, minutes and seconds do not change the day. The number, its product with the unit and
the span of so many days are limited, each on its own. -/

namespace SearchCompiler

namespace TimeBound

/-- Takes this many digits, of any script, off the front. -/
def takeDigits? : Nat → List Char → Option (List Char × List Char)
  | 0, cs => some ([], cs)
  | _ + 1, [] => none
  | n + 1, c :: cs =>
    if Text.isDecimalDigit c then (takeDigits? n cs).map fun p => (c :: p.1, p.2) else none

/-- Takes a character that is no digit off the front. -/
def takeSeparator? : List Char → Option (List Char)
  | [] => none
  | c :: cs => if Text.isDecimalDigit c then none else some cs

/-- The digits of year, month and day at the front of a text of one line. -/
def dateDigits? (cs : List Char) : Option (List Char × List Char × List Char) := do
  let (year, rest) ← takeDigits? 4 cs
  let (month, rest) ← takeDigits? 2 (← takeSeparator? rest)
  let (day, rest) ← takeDigits? 2 (← takeSeparator? rest)
  if rest.contains '\n' then none else some (year, month, day)

/-- The date of these digits, if they are ASCII digits and the calendar has it. -/
def date? (year month day : List Char) : Option Date := do
  Date.ofCivil? ⟨← Numeral.readNat? year, ← Numeral.readNat? month, ← Numeral.readNat? day⟩

/-- The length of a unit in days. -/
def unitDays? : Char → Option Int64
  | 'y' => some 365
  | 'M' => some 30
  | 'w' => some 7
  | 'd' => some 1
  | 'h' | 'H' | 'm' | 's' => some 0
  | _ => none

/-- The sign of an offset. -/
def sign? : Char → Option Int
  | '+' => some 1
  | '-' => some (-1)
  | _ => none

/-- The days of a number of units: a product of 64 bits, and a span that long. -/
def days? (amount unit : Int64) : Option Int := do
  let span ← Span.ofDays? (← mulInt64? amount unit)
  return span.days

/-- The days of an offset such as `-10d`, the number being one of 64 bits. -/
def offset? : List Char → Option Int
  | c :: rest => do
    let sign ← sign? c
    let unit ← unitDays? (← rest.getLast?)
    let amount ← (Numeral.readNat? rest.dropLast).bind fun n => toInt64? n
    return sign * (← days? amount unit)
  | [] => none

/-- A day relative to the present one. -/
def relative? (today : Date) : List Char → Option Date
  | ['n', 'o', 'w'] => some today
  | 'n' :: 'o' :: 'w' :: rest => (offset? rest).bind today.addDays?
  | _ => none

end TimeBound

open TimeBound in
/-- **Reads a bound as a date.** -/
def Date.ofBound? (today : Date) (s : String) : Option Date :=
  let cs := Text.trimChars s.toList
  match dateDigits? cs with
  | some (year, month, day) => date? year month day
  | none => relative? today cs

end SearchCompiler
