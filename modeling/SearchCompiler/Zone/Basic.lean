import SearchCompiler.Text.Blank
import SearchCompiler.Text.Case
import SearchCompiler.Time.DateTime

/-! # Time zones

A zone is a fixed offset or a region with clocks of its own. The regions are those of a database of
time zones, in which `Zone.read` looks names up, and which is not part of this library: all that is
known of the clocks of a region is at which offset they show a wall-clock time.

`Zone.read` reads `UTC` and `Z` in any case, signed offsets and names. After the sign of an offset
come hours and minutes on either side of a colon, or four bytes cut in the middle, or hours alone;
both numbers may carry a sign of their own.

* `LocalOffset`, `Clocks`, `Regions`: what a database of time zones tells.
* `Zone.localize?`: the moment at which the clocks of a zone show a wall-clock time. -/

namespace SearchCompiler

/-- **The offset at which clocks show a wall-clock time.** They skip a time when they are put
forward, and show one twice when they are put back. -/
inductive LocalOffset where
  | skipped
  | once (offset : Int)
  | twice (earlier later : Int)
  deriving DecidableEq, Repr

namespace LocalOffset

/-- The offsets in question. -/
def offsets : LocalOffset → List Int
  | skipped => []
  | once o => [o]
  | twice o o' => [o, o']

/-- The moment of a wall-clock time, the earlier one if there are two. None if one of them is
outside the calendar. -/
def moment? (wall : DateTime) : LocalOffset → Option DateTime
  | skipped => none
  | once o => wall.shift? (-o)
  | twice o o' => (wall.shift? (-o')).bind fun _ => wall.shift? (-o)

end LocalOffset

/-- **The clocks of a region.** -/
abbrev Clocks := DateTime → LocalOffset

/-- **A database of time zones**: the clocks of the regions it names. -/
abbrev Regions := String → Option Clocks

/-- **A time zone.** -/
inductive Zone where
  | fixed (offset : Int)
  | region (name : String) (clocks : Clocks)

namespace Zone

/-- Why a text is no zone. -/
inductive ReadError where
  /-- Not a zone in any form. -/
  | unknown (text : String)
  /-- The four bytes after a sign cannot be cut in the middle, for a character lies across the
  cut. -/
  | cutCharacter (text : String)
  deriving DecidableEq, Repr

/-- What is said of the error. A cut inside of a character is no answer: the program stops there. -/
def ReadError.message? : ReadError → Option String
  | .unknown text => some s!"invalid timezone: {text}"
  | .cutCharacter _ => none

def utc : Zone := .fixed 0

/-- The zone of times that name none, eight hours east. -/
def standard : Zone := .fixed (8 * 3600)

instance : Inhabited Zone := ⟨standard⟩

/-- The length of a text in bytes. -/
def byteLength (cs : List Char) : Nat := cs.foldr (fun c n => c.utf8Size + n) 0

/-- Cuts a text after some bytes, if no character lies across the cut. -/
def cutAt? : Nat → List Char → Option (List Char × List Char)
  | 0, cs => some ([], cs)
  | _, [] => none
  | n, c :: cs =>
    if c.utf8Size ≤ n then (cutAt? (n - c.utf8Size) cs).map fun p => (c :: p.1, p.2) else none

/-- The hours and the minutes of an offset, as texts. -/
def hoursAndMinutes? (cs : List Char) : Option (List Char × List Char) :=
  match Text.splitOnce? ':' cs with
  | some p => some p
  | none => if byteLength cs = 4 then cutAt? 2 cs else some (cs, ['0'])

/-- The offset of hours and minutes. Only upper bounds are checked on either; the seconds are
counted in 32 bits, where they may wrap around, and have to be less than a day. -/
def offset? (sign : Int32) (hours minutes : List Char) : Option Int := do
  let h ← Numeral.readInt32? hours
  let m ← Numeral.readInt32? minutes
  if 23 < h ∨ 59 < m then none
  else
    let seconds := sign * (h * 3600 + m * 60)
    if seconds.toInt.natAbs < 86400 then some seconds.toInt else none

/-- A region by name. -/
def named (regions : Regions) (cs : List Char) : Except ReadError Zone :=
  let text := String.ofList cs
  match regions text with
  | some clocks => .ok (.region text clocks)
  | none => .error (.unknown text)

/-- A signed offset; a text that is none may still be a name. -/
def signed (regions : Regions) (sign : Int32) (text rest : List Char) : Except ReadError Zone :=
  match hoursAndMinutes? rest with
  | none => .error (.cutCharacter (String.ofList text))
  | some (hours, minutes) =>
    match offset? sign hours minutes with
    | some o => .ok (.fixed o)
    | none => named regions text

/-- **Reads a zone.** -/
def read (regions : Regions) (s : String) : Except ReadError Zone :=
  let cs := Text.trimChars s.toList
  let word := Text.asciiLower (String.ofList cs)
  if word = "utc" ∨ word = "z" then .ok utc
  else
    match cs with
    | '+' :: rest => signed regions 1 cs rest
    | '-' :: rest => signed regions (-1) cs rest
    | _ => named regions cs

/-- The text of a zone. -/
def text : Zone → String
  | .fixed offset => offsetText offset
  | .region name _ => name

/-- The offset at which the clocks of the zone show a wall-clock time. -/
def offsetAt (wall : DateTime) : Zone → LocalOffset
  | .fixed offset => .once offset
  | .region _ clocks => clocks wall

/-- **The moment at which the clocks of the zone show a wall-clock time**, the earlier one if there
are two. None if the time was skipped, or if its moment is outside the calendar. -/
def localize? (z : Zone) (wall : DateTime) : Option DateTime := (z.offsetAt wall).moment? wall

end Zone

end SearchCompiler
