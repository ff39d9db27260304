import SearchCompiler.Time.Moment
import SearchCompiler.Value.Basic

/-! # Tagged values

The JSON form that keeps the kind of a value: an object with one member, the kind, and the content
under it; null is the bare word. Dates and times are read loosely here, with blanks allowed after
each number. -/

namespace SearchCompiler.Value.Tagged

open Pattern (Item)

def looseDate : List Item :=
  [.year, .gap, .mark '-', .month, .gap, .mark '-', .day]

def looseTime : List Item :=
  [.hour, .gap, .mark ':', .minute, .gap, .mark ':', .second, .fraction, .gap]

/-- A date. -/
def date? (s : String) : Option Date :=
  (Pattern.read? (looseDate ++ [.gap]) s.toList).bind (·.date?)

/-- A wall-clock time. -/
def wallTime? (s : String) : Option DateTime :=
  (Pattern.read? (looseDate ++ [.gap, .mark 'T'] ++ looseTime) s.toList).bind (·.dateTime?)

/-- `UTC` in any case, `Z` or a signed offset. -/
def looseOffset? (cs : List Char) : Option (Int × List Char) :=
  if (cs.take 3).map Char.toLower = ['u', 't', 'c'] then some (0, cs.drop 3)
  else
    match cs with
    | 'Z' :: rest => some (0, rest)
    | 'z' :: rest => some (0, rest)
    | cs => Pattern.offset? Pattern.looseSeparator cs

/-- A moment with its offset. -/
def stamp? (s : String) : Option Stamp := do
  let (p, rest) ← Pattern.take? looseDate {} s.toList
  let rest ← Moment.strictMark? rest
  let (p, rest) ← Pattern.take? looseTime p rest
  let (offset, rest) ← looseOffset? rest
  let p : Pattern.Parts := { p with offset := offset }
  if (rest.dropWhile Text.isBlank).isEmpty then p.stamp? else none

/-- The value of a tag and a content without values in it. -/
def scalar? (tag : String) (content : Json) : Option Value :=
  match tag with
  | "Int" => content.int64?.map .int
  | "Float" => content.float?.map .float
  | "String" => content.str?.map .str
  | "Boolean" => content.bool?.map .bool
  | "Json" => some (.json content)
  | "Date" => content.str?.bind fun s => (date? s).map .date
  | "Timestamp" => content.str?.bind fun s => (stamp? s).map .timestamp
  | "TimestampNaive" => content.str?.bind fun s => (wallTime? s).map .wallTime
  | "Null" => if content.isNull then some .null else none
  | _ => none

mutual

/-- **Reads the tagged form.** -/
def decode? : Json → Option Value
  | .str s => if s = "Null" then some .null else none
  | .obj [(tag, .arr items)] =>
    if tag = "List" then (decodeAll? items).map .list else scalar? tag (.arr items)
  | .obj [(tag, content)] => scalar? tag content
  | _ => none

/-- Reads the items of a list. -/
def decodeAll? : List Json → Option (List Value)
  | [] => some []
  | j :: rest => (decode? j).bind fun v => (decodeAll? rest).map (v :: ·)

end

mutual

/-- **Writes the tagged form.** -/
def encode : Value → Json
  | .int n => .single "Int" (.ofInt64 n)
  | .float x => .single "Float" (.ofFloat x)
  | .str s => .single "String" (.str s)
  | .bool b => .single "Boolean" (.bool b)
  | .json j => .single "Json" j
  | .date d => .single "Date" (.str d.text)
  | .timestamp s => .single "Timestamp" (.str s.zuluText)
  | .wallTime t => .single "TimestampNaive" (.str t.text)
  | .list items => .single "List" (.arr (encodeAll items))
  | .null => .str "Null"

/-- Writes the items of a list. -/
def encodeAll : List Value → List Json
  | [] => []
  | v :: rest => encode v :: encodeAll rest

end

end SearchCompiler.Value.Tagged
