import SearchCompiler.Numeral

/-! # Dates

The proleptic Gregorian calendar, with a year zero. A date is the number of a day counted from
1970-01-01, in the range of years -262143 to 262142; year, month and day are computed from it and
back. Arithmetic and comparison of dates are those of day numbers.

* `Date.ofCivil?`: the date with a given year, month and day.
* `Date.addDays?`: the date some days later, if it is in range. -/

namespace SearchCompiler

/-- A year, a month counted from 1 and a day of the month. -/
structure Civil where
  year : Int
  month : Nat
  day : Nat
  deriving DecidableEq, Repr

namespace Calendar

def isLeap (year : Int) : Bool := year % 4 == 0 && (year % 100 != 0 || year % 400 == 0)

/-- The lengths of the months of a year. -/
def monthLengths (leap : Bool) : List Nat :=
  [31, if leap then 29 else 28, 31, 30, 31, 30, 31, 31, 30, 31, 30, 31]

def daysInMonth (year : Int) (month : Nat) : Nat :=
  (monthLengths (isLeap year)).getD (month - 1) 0

/-- The number of the first day of a year. -/
def firstDay (year : Int) : Int :=
  let past := year - 1
  365 * past + past / 4 - past / 100 + past / 400 - 719162

/-- Is this a day of the calendar? -/
def isCivil (c : Civil) : Bool :=
  1 ≤ c.month && c.month ≤ 12 && 1 ≤ c.day && c.day ≤ daysInMonth c.year c.month

/-- The total of some lengths of months. -/
def totalDays (lengths : List Nat) : Nat := lengths.foldr (fun n total => n + total) 0

/-- The number of a day. -/
def dayNumber (c : Civil) : Int :=
  firstDay c.year + totalDays ((monthLengths (isLeap c.year)).take (c.month - 1)) + c.day - 1

/-- The year a day falls in: an estimate from the mean length of a year, which is off by one at
most. -/
def yearOf (day : Int) : Int :=
  let estimate := (day + 719162) * 400 / 146097 + 1
  if day < firstDay estimate then estimate - 1
  else if firstDay (estimate + 1) ≤ day then estimate + 1
  else estimate

/-- Month and day of the month, from the lengths of the months to come, the number of the first of
them and the days left. -/
def monthDay : List Nat → Nat → Nat → Nat × Nat
  | [], month, left => (month, left + 1)
  | n :: lengths, month, left =>
    if left < n then (month, left + 1) else monthDay lengths (month + 1) (left - n)

/-- **Year, month and day of a day number.** -/
def civil (day : Int) : Civil :=
  let year := yearOf day
  let (month, dayOfMonth) := monthDay (monthLengths (isLeap year)) 1 (day - firstDay year).toNat
  ⟨year, month, dayOfMonth⟩

/-- A year: four digits at least, with a sign outside 0 to 9999. -/
def yearText (year : Int) : String :=
  if 0 ≤ year ∧ year ≤ 9999 then Numeral.padded 4 year.toNat
  else (if year < 0 then "-" else "+") ++ Numeral.padded 4 year.natAbs

/-- A day as `YYYY-MM-DD`. -/
def dayText (day : Int) : String :=
  let c := civil day
  yearText c.year ++ "-" ++ Numeral.padded 2 c.month ++ "-" ++ Numeral.padded 2 c.day

def minDay : Int := firstDay (-262143)

def maxDay : Int := firstDay 262143 - 1

end Calendar

/-- **A date in the range of the calendar.** -/
structure Date where
  day : Int
  inRange : Calendar.minDay ≤ day ∧ day ≤ Calendar.maxDay
  deriving DecidableEq

namespace Date

theorem ext {a b : Date} (h : a.day = b.day) : a = b := by
  cases a; cases b; cases h; rfl

/-- The date of a day number, if it is in range. -/
def ofDay? (day : Int) : Option Date :=
  if h : Calendar.minDay ≤ day ∧ day ≤ Calendar.maxDay then some ⟨day, h⟩ else none

/-- The date of a year, month and day, if the calendar has it. -/
def ofCivil? (c : Civil) : Option Date :=
  if Calendar.isCivil c then ofDay? (Calendar.dayNumber c) else none

/-- The date some days later. -/
def addDays? (d : Date) (n : Int) : Option Date := ofDay? (d.day + n)

def civil (d : Date) : Civil := Calendar.civil d.day

/-- The text `YYYY-MM-DD`. -/
def text (d : Date) : String := Calendar.dayText d.day

instance : LT Date := ⟨fun a b => a.day < b.day⟩

instance (a b : Date) : Decidable (a < b) := inferInstanceAs (Decidable (a.day < b.day))

theorem ofDay?_eq_some_iff {n : Int} {d : Date} : ofDay? n = some d ↔ d.day = n := by
  unfold ofDay?
  constructor
  · intro h
    split at h
    · cases h; rfl
    · cases h
  · rintro rfl
    rw [dif_pos d.inRange]

theorem addDays?_eq_some_iff {d e : Date} {n : Int} : d.addDays? n = some e ↔ e.day = d.day + n :=
  ofDay?_eq_some_iff

end Date

end SearchCompiler
