import SearchCompiler.Time.Date

/-! # Dates with a time of day

A `DateTime` is a date with a time in seconds and nanoseconds, read as wall-clock time or as UTC by
whoever uses it. A leap second is the last second of a minute with a nanosecond count of a thousand
million or more; it is written as second 60. No other time is one: a day has 86400 seconds, and a
second at most twice a thousand million nanoseconds. A `Stamp` is a UTC time with the offset of the
clock that showed it.

* `DateTime.shift?`: the time some seconds later, if its date is in range.
* `DateTime.utcText`: the form in which a moment enters a document, cut to microseconds. -/

namespace SearchCompiler

/-- **A date and a time of day.** -/
structure DateTime where
  date : Date
  second : Nat
  nano : Nat
  second_lt : second < 86400
  nano_lt : nano < 2000000000
  deriving DecidableEq

namespace DateTime

def secondsPerDay : Int := 86400

/-- The seconds since 1970-01-01. -/
def seconds (t : DateTime) : Int := t.date.day * secondsPerDay + t.second

/-- The time of a day, if a clock shows it. -/
def ofClock? (d : Date) (second nano : Nat) : Option DateTime :=
  if h : second < 86400 ∧ nano < 2000000000 then some ⟨d, second, nano, h.1, h.2⟩ else none

/-- The time at a count of seconds since 1970-01-01, if its date is in range. -/
def ofSeconds? (seconds : Int) (nano : Nat) (hn : nano < 2000000000) : Option DateTime :=
  (Date.ofDay? (seconds / secondsPerDay)).map fun d =>
    ⟨d, (seconds % secondsPerDay).toNat, nano, by simp only [secondsPerDay]; omega, hn⟩

/-- The time some seconds later. -/
def shift? (t : DateTime) (n : Int) : Option DateTime := ofSeconds? (t.seconds + n) t.nano t.nano_lt

/-- The time at a count of milliseconds since 1970-01-01. -/
def ofMillis? (millis : Int) : Option DateTime :=
  ofSeconds? (millis / 1000) ((millis % 1000).toNat * 1000000) (by omega)

def midnight (d : Date) : DateTime := ⟨d, 0, 0, by decide, by decide⟩

/-- Hours, minutes and seconds, with a leap second as second 60. -/
def clockText (second nano : Nat) : String :=
  Numeral.padded 2 (second / 3600) ++ ":" ++ Numeral.padded 2 (second / 60 % 60) ++ ":" ++
    Numeral.padded 2 (second % 60 + nano / 1000000000)

/-- The fraction of a second in 0, 3, 6 or 9 digits, as few as show all of it. -/
def fractionText (nano : Nat) : String :=
  let n := nano % 1000000000
  if n = 0 then ""
  else if n % 1000000 = 0 then "." ++ Numeral.padded 3 (n / 1000000)
  else if n % 1000 = 0 then "." ++ Numeral.padded 6 (n / 1000)
  else "." ++ Numeral.padded 9 n

/-- Date and time with a `T` between them. -/
def text (t : DateTime) : String :=
  t.date.text ++ "T" ++ clockText t.second t.nano ++ fractionText t.nano

/-- **The UTC form:** six digits of the second, those beyond them cut off, and a `Z`. -/
def utcText (t : DateTime) : String :=
  t.date.text ++ "T" ++ clockText t.second t.nano ++ "." ++
    Numeral.padded 6 (t.nano % 1000000000 / 1000) ++ "Z"

end DateTime

/-- An offset from UTC: sign, hours and minutes, and seconds if there are any. -/
def offsetText (offset : Int) : String :=
  let n := offset.natAbs
  (if offset < 0 then "-" else "+") ++ Numeral.padded 2 (n / 3600) ++ ":" ++
    Numeral.padded 2 (n / 60 % 60) ++ if n % 60 = 0 then "" else ":" ++ Numeral.padded 2 (n % 60)

/-- An offset from UTC to the nearest minute. -/
def minuteOffsetText (offset : Int) : String :=
  let n := (offset.natAbs + 30) / 60
  (if offset < 0 then "-" else "+") ++ Numeral.padded 2 (n / 60) ++ ":" ++ Numeral.padded 2 (n % 60)

/-- **A moment with the offset of its clock.** -/
structure Stamp where
  utc : DateTime
  offset : Int
  deriving DecidableEq

namespace Stamp

/-- The moment at which a clock with this offset shows a wall-clock time. -/
def ofLocal? (wall : DateTime) (offset : Int) : Option Stamp :=
  (wall.shift? (-offset)).map fun utc => ⟨utc, offset⟩

/-- The text of the wall-clock time that the clock shows. -/
def wallText (s : Stamp) : String :=
  let n := s.utc.seconds + s.offset
  Calendar.dayText (n / DateTime.secondsPerDay) ++ "T" ++
    DateTime.clockText (n % DateTime.secondsPerDay).toNat s.utc.nano ++
    DateTime.fractionText s.utc.nano

/-- Wall-clock time and offset. Seconds of the offset are rounded, though the time is shown with
them. -/
def text (s : Stamp) : String := s.wallText ++ minuteOffsetText s.offset

/-- Wall-clock time and offset, with `Z` for UTC. -/
def zuluText (s : Stamp) : String :=
  s.wallText ++ if s.offset = 0 then "Z" else minuteOffsetText s.offset

end Stamp

end SearchCompiler
