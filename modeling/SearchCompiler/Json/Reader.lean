import SearchCompiler.Json.Basic
import SearchCompiler.Decimal.Read

/-! # Reading JSON text

A strict reader: no trailing commas, no characters after the value but blanks, no control characters
in strings, escaped surrogates in pairs only, at most 127 containers inside one another. Of two
members with one key the later one counts. The depth is the structural argument of the reader; the
loops over the characters of one string and the items of one container spend fuel, of which the
length of the text is always enough.

Integers of up to 64 bits are exact. Every other number is a float, computed from its first digits
(as many as fit 64 bits) scaled by a power of ten in floating point; a result beyond the largest
float is an error. -/

namespace SearchCompiler.Json

/-- A reader takes a value off the front of a text, or fails. -/
abbrev Reader (α : Type) := List Char → Option (α × List Char)

namespace Reader

open Numeral (digit)

def isSpace (c : Char) : Bool := c == ' ' || c == '\t' || c == '\n' || c == '\r'

def skipSpace (cs : List Char) : List Char := cs.dropWhile isSpace

/-! ### Numbers -/

/-- The digits of a number that fit a 64-bit word, from a start value: the word, the count of digits
taken, and the digits left over. -/
def word (acc : Nat) : List Char → Nat × Nat × List Char
  | [] => (acc, 0, [])
  | d :: rest =>
    let next := 10 * acc + digit d
    if 18446744073709551616 ≤ next then (acc, 0, d :: rest)
    else
      let (m, taken, left) := word next rest
      (m, taken + 1, left)

/-- The power of ten nearest to `10 ^ n`. -/
def power (n : Nat) : Float := Decimal.nearest 1 n

/-- `f * 10 ^ e` in floating point; nothing if that is beyond the largest float. A very small
exponent is taken in steps of 308, of which three bring any word to zero. -/
def scaled (f : Float) (e : Int) : Option Float :=
  if 0 ≤ e then
    if f == 0 then some f
    else if 308 < e then none
    else
      let r := f * power e.toNat
      if Decimal.isFinite r then some r else none
  else some (down 4 f e.natAbs)
where
  /-- Division by `10 ^ n`. -/
  down : Nat → Float → Nat → Float
    | 0, f, _ => f
    | steps + 1, f, n => if n ≤ 308 then f / power n else down steps (f / power 308) (n - 308)

/-- The float of a number given by the digits before and after its point and its exponent. -/
def approximate (whole fraction : List Char) (e : Int) : Option Float :=
  let (m, _, left) := word 0 whole
  if left.isEmpty then
    let (m, taken, _) := word m fraction
    scaled (Float.ofNat m) (e - taken)
  else
    let (m, taken, _) := word m fraction
    scaled (Float.ofNat m) (e + left.length - taken)

/-- The digits before the point: a zero, or digits that start with none. -/
def wholePart? : Reader (List Char)
  | '0' :: c :: rest => if c.isDigit then none else some (['0'], c :: rest)
  | cs =>
    let (ds, rest) := Decimal.digitRun cs
    if ds.isEmpty then none else some (ds, rest)

/-- The digits after the point, at least one if there is a point. -/
def fractionPart? : Reader (Option (List Char))
  | '.' :: rest =>
    let (ds, rest) := Decimal.digitRun rest
    if ds.isEmpty then none else some (some ds, rest)
  | cs => some (none, cs)

/-- The exponent, if there is one. -/
def exponentPart? : Reader (Option Int)
  | c :: rest =>
    if c = 'e' ∨ c = 'E' then
      let (negative, rest) := match rest with
        | '+' :: rest => (false, rest)
        | '-' :: rest => (true, rest)
        | rest => (false, rest)
      let (ds, rest) := Decimal.digitRun rest
      if ds.isEmpty then none
      else
        let n : Int := Numeral.value ds
        some (some (if negative then -n else n), rest)
    else some (none, c :: rest)
  | [] => some (none, [])

/-- The integer of a run of digits, if it fits 64 bits, with a sign or without. Minus zero is a
float. -/
def integer? (negative : Bool) (ds : List Char) : Option Int :=
  let n := Numeral.value ds
  if negative then if 0 < n ∧ n ≤ 9223372036854775808 then some (-(n : Int)) else none
  else if n < 18446744073709551616 then some n else none

/-- A number without its sign. -/
def unsignedNumber (negative : Bool) : Reader Number := fun cs => do
  let (whole, rest) ← wholePart? cs
  let (fraction, rest) ← fractionPart? rest
  let (exponent, rest) ← exponentPart? rest
  match fraction, exponent, integer? negative whole with
  | none, none, some n => return (.int n, rest)
  | _, _, _ =>
    let x ← approximate whole (fraction.getD []) (exponent.getD 0)
    return (.float (if negative then -x else x), rest)

/-- A number. -/
def number : Reader Number
  | '-' :: rest => unsignedNumber true rest
  | cs => unsignedNumber false cs

/-! ### Strings -/

/-- The value of a hexadecimal digit. -/
def hexDigit? (c : Char) : Option Nat :=
  if c.isDigit then some (c.toNat - '0'.toNat)
  else if 'a' ≤ c ∧ c ≤ 'f' then some (c.toNat - 'a'.toNat + 10)
  else if 'A' ≤ c ∧ c ≤ 'F' then some (c.toNat - 'A'.toNat + 10)
  else none

/-- Four hexadecimal digits. -/
def hexWord : Reader Nat
  | a :: b :: c :: d :: rest => do
    let a ← hexDigit? a
    let b ← hexDigit? b
    let c ← hexDigit? c
    let d ← hexDigit? d
    return (((a * 16 + b) * 16 + c) * 16 + d, rest)
  | _ => none

/-- A character given by four hexadecimal digits, or by two such words if the first is a leading
surrogate. -/
def unicodeEscape : Reader Char := fun cs => do
  let (hi, rest) ← hexWord cs
  if 0xDC00 ≤ hi ∧ hi ≤ 0xDFFF then none
  else if 0xD800 ≤ hi ∧ hi ≤ 0xDBFF then
    match rest with
    | '\\' :: 'u' :: rest =>
      let (lo, rest) ← hexWord rest
      if 0xDC00 ≤ lo ∧ lo ≤ 0xDFFF then
        return (Char.ofNat (0x10000 + (hi - 0xD800) * 0x400 + (lo - 0xDC00)), rest)
      else none
    | _ => none
  else return (Char.ofNat hi, rest)

/-- The character after a backslash. -/
def escapeSequence : Reader Char
  | '"' :: rest => some ('"', rest)
  | '\\' :: rest => some ('\\', rest)
  | '/' :: rest => some ('/', rest)
  | 'b' :: rest => some ('\x08', rest)
  | 'f' :: rest => some ('\x0c', rest)
  | 'n' :: rest => some ('\n', rest)
  | 'r' :: rest => some ('\r', rest)
  | 't' :: rest => some ('\t', rest)
  | 'u' :: rest => unicodeEscape rest
  | _ => none

/-- The rest of a string after its opening quote. -/
def stringBody : Nat → Reader (List Char)
  | 0, _ => none
  | fuel + 1, cs =>
    match cs with
    | [] => none
    | '"' :: rest => some ([], rest)
    | '\\' :: rest => do
      let (c, rest) ← escapeSequence rest
      let (s, rest) ← stringBody fuel rest
      return (c :: s, rest)
    | c :: rest =>
      if c.toNat < 0x20 then none
      else do
        let (s, rest) ← stringBody fuel rest
        return (c :: s, rest)

/-- A quoted string. -/
def string (fuel : Nat) : Reader String
  | '"' :: rest => (stringBody fuel rest).map fun p => (String.ofList p.1, p.2)
  | _ => none

/-! ### Values -/

/-- One item, and more of them after commas, up to a closing mark. -/
def sequence {α : Type} (item : Reader α) (close : Char) : Nat → Reader (List α)
  | 0, _ => none
  | fuel + 1, cs => do
    let (a, rest) ← item (skipSpace cs)
    match skipSpace rest with
    | c :: rest =>
      if c = ',' then
        let (as, rest) ← sequence item close fuel rest
        return (a :: as, rest)
      else if c = close then return ([a], rest)
      else none
    | [] => none

/-- The items of a container after its opening mark. -/
def container {α : Type} (fuel : Nat) (item : Reader α) (close : Char) : Reader (List α) :=
  fun cs =>
    match skipSpace cs with
    | [] => none
    | c :: rest => if c = close then some ([], rest) else sequence item close fuel (c :: rest)

/-- A key, a colon and a value. -/
def member (fuel : Nat) (value : Reader Json) : Reader (String × Json) := fun cs => do
  let (k, rest) ← string fuel cs
  match skipSpace rest with
  | ':' :: rest =>
    let (v, rest) ← value (skipSpace rest)
    return ((k, v), rest)
  | _ => none

/-- A fixed word. -/
def keyword (w : List Char) (j : Json) : Reader Json := fun cs =>
  if w.isPrefixOf cs then some (j, cs.drop w.length) else none

/-- A value with at most `depth` containers inside one another. -/
def value (fuel : Nat) : Nat → Reader Json
  | depth, cs =>
    match cs with
    | 'n' :: _ => keyword ['n', 'u', 'l', 'l'] .null cs
    | 't' :: _ => keyword ['t', 'r', 'u', 'e'] (.bool true) cs
    | 'f' :: _ => keyword ['f', 'a', 'l', 's', 'e'] (.bool false) cs
    | '"' :: _ => (string fuel cs).map fun p => (.str p.1, p.2)
    | '[' :: rest =>
      match depth with
      | 0 => none
      | depth + 1 => (container fuel (value fuel depth) ']' rest).map fun p => (.arr p.1, p.2)
    | '\x7b' :: rest =>
      match depth with
      | 0 => none
      | depth + 1 =>
        (container fuel (member fuel (value fuel depth)) '\x7d' rest).map fun p =>
          (mkObj p.1, p.2)
    | _ => (number cs).map fun p => (.num p.1, p.2)

/-- The greatest number of containers inside one another. -/
def maxDepth : Nat := 127

end Reader

/-- Reads a text as a whole, blanks at its ends not counting. -/
def Reader.whole? {α : Type} (read : Reader α) (cs : List Char) : Option α :=
  match read (Reader.skipSpace cs) with
  | some (a, rest) => if (Reader.skipSpace rest).isEmpty then some a else none
  | none => none

/-- **Reads a JSON text.** -/
def read? (s : String) : Option Json :=
  let cs := s.toList
  Reader.whole? (Reader.value cs.length Reader.maxDepth) cs

end SearchCompiler.Json
