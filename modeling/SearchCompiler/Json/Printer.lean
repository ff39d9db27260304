import SearchCompiler.Json.Basic
import SearchCompiler.Decimal.Layout

/-! # JSON text

The compact text of a JSON value: no blanks, members in the order of the object, characters outside
ASCII as they are. In a string the quote, the backslash and the control characters are escaped, five
of them by a letter and the others by four hexadecimal digits. -/

namespace SearchCompiler.Json

/-- A character inside a string. -/
def escaped (c : Char) : List Char :=
  if c = '"' then ['\\', '"']
  else if c = '\\' then ['\\', '\\']
  else if c = '\x08' then ['\\', 'b']
  else if c = '\x0c' then ['\\', 'f']
  else if c = '\n' then ['\\', 'n']
  else if c = '\r' then ['\\', 'r']
  else if c = '\t' then ['\\', 't']
  else if c.toNat < 0x20 then
    ['\\', 'u', '0', '0', Nat.digitChar (c.toNat / 16), Nat.digitChar (c.toNat % 16)]
  else [c]

/-- A quoted string. -/
def quoted (s : String) : List Char := '"' :: s.toList.flatMap escaped ++ ['"']

/-- A number. -/
def numberText : Number → List Char
  | .int n => (toString n).toList
  | .float x => (Decimal.Layout.json.render x).toList

mutual

/-- The characters of a value. -/
def chars : Json → List Char
  | .null => ['n', 'u', 'l', 'l']
  | .bool true => ['t', 'r', 'u', 'e']
  | .bool false => ['f', 'a', 'l', 's', 'e']
  | .num n => numberText n
  | .str s => quoted s
  | .arr items => '[' :: itemChars items ++ [']']
  | .obj fields => '\x7b' :: fieldChars fields ++ ['\x7d']

/-- The characters of a list, with commas between the items. -/
def itemChars : List Json → List Char
  | [] => []
  | [j] => j.chars
  | j :: rest => j.chars ++ ',' :: itemChars rest

/-- The characters of the members, with commas between them. -/
def fieldChars : List (String × Json) → List Char
  | [] => []
  | [(k, v)] => quoted k ++ ':' :: v.chars
  | (k, v) :: rest => quoted k ++ ':' :: v.chars ++ ',' :: fieldChars rest

end

/-- **The text of a value.** -/
def text (j : Json) : String := String.ofList j.chars

/-- The text of a value as part of a sentence: a string stands without its quotes. -/
def display : Json → String
  | .str s => s
  | j => j.text

end SearchCompiler.Json
