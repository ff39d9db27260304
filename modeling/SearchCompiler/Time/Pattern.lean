import SearchCompiler.Text.Blank
import SearchCompiler.Time.DateTime

/-! # Reading dates and times by pattern

A pattern is a list of items, each of which takes its part off the front of a text. A number may
have blanks before it; a year without a sign has up to four digits, with a sign any number of them;
the other numbers have one or two. A separator matches itself, a gap any run of blanks. The parts
are put together only at the end, where the calendar has its say. -/

namespace SearchCompiler

namespace Pattern

/-- One item of a pattern. -/
inductive Item where
  | year
  | month
  | day
  | hour
  | minute
  | second
  /-- A point and digits, or nothing. -/
  | fraction
  /-- Sign, two digits of hours, colons or blanks, two digits of minutes. -/
  | offset
  | mark (c : Char)
  | gap
  deriving DecidableEq, Repr

/-- What has been read so far. Of the leap second, only its count of 60 is kept. -/
structure Parts where
  year : Int := 0
  month : Nat := 0
  day : Nat := 0
  hour : Nat := 0
  minute : Nat := 0
  second : Nat := 0
  nano : Nat := 0
  offset : Int := 0

/-- Digits off the front of a text, from `least` to `most` of them. -/
def digits? (least most : Nat) (cs : List Char) : Option (Nat × List Char) :=
  let ds := (cs.take most).takeWhile Char.isDigit
  if ds.length < least then none else some (Numeral.value ds, cs.drop ds.length)

/-- Any number of digits, at least one. -/
def allDigits? (cs : List Char) : Option (Nat × List Char) := digits? 1 cs.length cs

/-- A number of one or two digits between bounds, blanks before it passed over. -/
def small? (lo hi : Nat) (cs : List Char) : Option (Nat × List Char) :=
  (digits? 1 2 (cs.dropWhile Text.isBlank)).bind fun (n, rest) =>
    if lo ≤ n ∧ n ≤ hi then some (n, rest) else none

/-- A year, blanks before it passed over. -/
def year? (cs : List Char) : Option (Int × List Char) :=
  match cs.dropWhile Text.isBlank with
  | '-' :: cs => (allDigits? cs).map fun (n, rest) => (-(n : Int), rest)
  | '+' :: cs => (allDigits? cs).map fun (n, rest) => ((n : Int), rest)
  | cs => (digits? 1 4 cs).map fun (n, rest) => ((n : Int), rest)

/-- The digits of a fraction as nanoseconds, those past the ninth dropped. -/
def nanos? (cs : List Char) : Option (Nat × List Char) :=
  let ds := cs.takeWhile Char.isDigit
  let kept := ds.take 9
  if ds.isEmpty then none
  else some (Numeral.value kept * Nat.pow 10 (9 - kept.length), cs.drop ds.length)

/-- A point and the digits of a fraction, or nothing. -/
def fraction? : List Char → Option (Nat × List Char)
  | '.' :: cs => nanos? cs
  | cs => some (0, cs)

/-- The sign of an offset. The minus sign of typography counts. -/
def sign? : List Char → Option (Int × List Char)
  | '+' :: cs => some (1, cs)
  | '-' :: cs => some (-1, cs)
  | '−' :: cs => some (-1, cs)
  | _ => none

/-- A signed offset, given what may stand between hours and minutes. -/
def offset? (separator : List Char → Option (List Char)) (cs : List Char) :
    Option (Int × List Char) := do
  let (sign, cs) ← sign? cs
  let (hours, cs) ← digits? 2 2 cs
  let (minutes, cs) ← digits? 2 2 (← separator cs)
  if 59 < minutes then none
  else return (sign * (hours * 3600 + minutes * 60 : Nat), cs)

/-- Colons and blanks, any number of them. -/
def looseSeparator (cs : List Char) : Option (List Char) :=
  some (cs.dropWhile fun c => c == ':' || Text.isBlank c)

/-- A fixed character. -/
def mark? (c : Char) : List Char → Option (List Char)
  | d :: cs => if d = c then some cs else none
  | [] => none

/-- Takes one item off the front of a text. -/
def Item.read? (i : Item) (p : Parts) (cs : List Char) : Option (Parts × List Char) :=
  match i with
  | .year => (year? cs).map fun (n, rest) => ({ p with year := n }, rest)
  | .month => (small? 1 12 cs).map fun (n, rest) => ({ p with month := n }, rest)
  | .day => (small? 1 31 cs).map fun (n, rest) => ({ p with day := n }, rest)
  | .hour => (small? 0 23 cs).map fun (n, rest) => ({ p with hour := n }, rest)
  | .minute => (small? 0 59 cs).map fun (n, rest) => ({ p with minute := n }, rest)
  | .second => (small? 0 60 cs).map fun (n, rest) => ({ p with second := n }, rest)
  | .fraction => (fraction? cs).map fun (n, rest) => ({ p with nano := n }, rest)
  | .offset =>
    (offset? looseSeparator (cs.dropWhile Text.isBlank)).map fun (n, rest) =>
      ({ p with offset := n }, rest)
  | .mark c => (mark? c cs).map fun rest => (p, rest)
  | .gap => some (p, cs.dropWhile Text.isBlank)

/-- Takes the items of a pattern off the front of a text, in order. -/
def take? : List Item → Parts → List Char → Option (Parts × List Char)
  | [], p, cs => some (p, cs)
  | i :: items, p, cs => (i.read? p cs).bind fun (p, rest) => take? items p rest

/-- Reads a whole text by a pattern. -/
def read? (items : List Item) (cs : List Char) : Option Parts :=
  (take? items {} cs).bind fun (p, rest) => if rest.isEmpty then some p else none

/-- The date that was read. -/
def Parts.date? (p : Parts) : Option Date := Date.ofCivil? ⟨p.year, p.month, p.day⟩

/-- The date and time that were read. Second 60 is the second before it, gone on for longer. -/
def Parts.dateTime? (p : Parts) : Option DateTime :=
  p.date?.bind fun d =>
    let (second, nano) := if p.second = 60 then (59, p.nano + 1000000000) else (p.second, p.nano)
    DateTime.ofClock? d (p.hour * 3600 + p.minute * 60 + second) nano

/-- The moment that was read, with its offset of less than a day. -/
def Parts.stamp? (p : Parts) : Option Stamp :=
  if p.offset.natAbs < 86400 then p.dateTime?.bind fun t => Stamp.ofLocal? t p.offset else none

end Pattern

end SearchCompiler
