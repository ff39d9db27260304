import SearchCompiler.Time.Pattern

/-! # Moments in text

A moment is either aware of its offset or a wall-clock time that still needs a zone. Texts are tried
against a strict form first (year, month and day in four, two and two digits, a `T` or a blank, the
time, and an offset or `Z`), then against loose patterns: with an offset, without one, and of dates
alone, which stand for midnight. The first that reads the whole text decides. -/

namespace SearchCompiler

/-- **A moment** that was read from text. -/
inductive Moment where
  | aware (s : Stamp)
  | wall (t : DateTime)
  deriving DecidableEq

namespace Moment

open Pattern (Item)

def dashedDate : List Item := [.year, .mark '-', .month, .mark '-', .day]

def slashedDate : List Item := [.year, .mark '/', .month, .mark '/', .day]

def toMinute : List Item := [.hour, .mark ':', .minute]

def toSecond : List Item := toMinute ++ [.mark ':', .second]

def toFraction : List Item := toSecond ++ [.fraction]

/-- The patterns with an offset. -/
def awarePatterns : List (List Item) :=
  [dashedDate ++ .gap :: toFraction ++ [.offset],
   dashedDate ++ .mark 'T' :: toFraction ++ [.offset],
   slashedDate ++ .gap :: toFraction ++ [.offset]]

/-- The patterns of a wall-clock time. -/
def wallPatterns : List (List Item) :=
  [dashedDate ++ .mark 'T' :: toFraction,
   dashedDate ++ .gap :: toFraction,
   dashedDate ++ .mark 'T' :: toMinute,
   dashedDate ++ .gap :: toMinute,
   slashedDate ++ .gap :: toFraction,
   slashedDate ++ .gap :: toMinute,
   [.year, .month, .day, .mark 'T', .hour, .minute, .second],
   [.month, .mark '/', .day, .mark '/', .year, .gap] ++ toSecond]

/-- The patterns of a date. -/
def datePatterns : List (List Item) :=
  [dashedDate, slashedDate, [.year, .mark '.', .month, .mark '.', .day], [.year, .month, .day],
   [.month, .mark '/', .day, .mark '/', .year]]

/-! ### The strict form -/

/-- A number of exactly this many digits between bounds. -/
def exactly? (width lo hi : Nat) (cs : List Char) : Option (Nat × List Char) :=
  (Pattern.digits? width width cs).bind fun (n, rest) =>
    if lo ≤ n ∧ n ≤ hi then some (n, rest) else none

/-- `Z` or a signed offset with a colon in it. -/
def strictOffset? : List Char → Option (Int × List Char)
  | 'Z' :: cs => some (0, cs)
  | 'z' :: cs => some (0, cs)
  | cs => Pattern.offset? (Pattern.mark? ':') cs

/-- The mark between a date and a time. -/
def strictMark? : List Char → Option (List Char)
  | c :: cs => if c = 'T' ∨ c = 't' ∨ c = ' ' then some cs else none
  | [] => none

/-- **The strict form of a moment.** -/
def strict? (cs : List Char) : Option Stamp := do
  let (year, cs) ← exactly? 4 0 9999 cs
  let cs ← Pattern.mark? '-' cs
  let (month, cs) ← exactly? 2 1 12 cs
  let cs ← Pattern.mark? '-' cs
  let (day, cs) ← exactly? 2 1 31 cs
  let cs ← strictMark? cs
  let (hour, cs) ← exactly? 2 0 23 cs
  let cs ← Pattern.mark? ':' cs
  let (minute, cs) ← exactly? 2 0 59 cs
  let cs ← Pattern.mark? ':' cs
  let (second, cs) ← exactly? 2 0 60 cs
  let (nano, cs) ← Pattern.fraction? cs
  let (offset, cs) ← strictOffset? cs
  if cs.isEmpty then
    Pattern.Parts.stamp? ⟨year, month, day, hour, minute, second, nano, offset⟩
  else none

/-! ### All forms -/

def aware? (cs : List Char) : Option Stamp :=
  (strict? cs).or (awarePatterns.findSome? fun p => (Pattern.read? p cs).bind (·.stamp?))

def wall? (cs : List Char) : Option DateTime :=
  wallPatterns.findSome? fun p => (Pattern.read? p cs).bind (·.dateTime?)

def date? (cs : List Char) : Option Date :=
  datePatterns.findSome? fun p => (Pattern.read? p cs).bind (·.date?)

/-- **Reads a moment.** Blanks around the text do not count. -/
def read? (s : String) : Option Moment :=
  let cs := Text.trimChars s.toList
  ((aware? cs).map .aware).or
    (((wall? cs).map .wall).or ((date? cs).map fun d => .wall (.midnight d)))

end Moment

end SearchCompiler
