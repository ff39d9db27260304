import SearchCompiler.Decimal.Read
import SearchCompiler.Json.Printer
import SearchCompiler.Text.Blank
import SearchCompiler.Time.DateTime

/-! # Values

The literals of a predicate and the normalized values of fields. A value has several readings (as a
number, as text, as a truth value), a JSON form in which it enters a document, and a text in which
it is quoted. A JSON value counts as a value of its own kind, whatever it holds. -/

namespace SearchCompiler

/-- **A literal or a field value.** -/
inductive Value where
  | int (n : Int64)
  | float (x : Float)
  | str (s : String)
  | bool (b : Bool)
  | json (j : Json)
  | date (d : Date)
  | timestamp (s : Stamp)
  | wallTime (t : DateTime)
  | list (items : List Value)
  | null

instance : Inhabited Value := ⟨.null⟩

namespace Value

/-- The value as a float. Text is read as a decimal, blanks around it not counting. -/
def float? : Value → Option Float
  | int n => some (Float.ofInt n.toInt)
  | float x => some x
  | str s => Decimal.readFloat? (Text.trimChars s.toList)
  | json j => j.float?
  | _ => none

/-- The value as a 64-bit integer. A float counts if it is whole and in range. -/
def int64? : Value → Option Int64
  | int n => some n
  | float x =>
    match Decimal.integerPart? x with
    | some (n, true) => toInt64? n
    | _ => none
  | str s => Numeral.readInt64? (Text.trimChars s.toList)
  | json j => j.int64?
  | _ => none

/-- The value as text, without any conversion. -/
def str? : Value → Option String
  | str s => some s
  | json j => j.str?
  | _ => none

def list? : Value → Option (List Value)
  | list items => some items
  | _ => none

def isNull : Value → Bool
  | null => true
  | json j => j.isNull
  | _ => false

/-- The truth value of JSON: zero, the empty text and empty containers are false. -/
def jsonTruthy : Json → Bool
  | .null => false
  | .bool b => b
  | .num n => n.toFloat != 0
  | .str s => s != ""
  | .arr items => !items.isEmpty
  | .obj fields => !fields.isEmpty

/-- The truth value: zero, the empty text, the empty list and null are false. -/
def isTruthy : Value → Bool
  | int n => n != 0
  | float x => x != 0
  | str s => s != ""
  | bool b => b
  | json j => jsonTruthy j
  | date _ | timestamp _ | wallTime _ => true
  | list items => !items.isEmpty
  | null => false

/-- The name of the kind of value. -/
def typeName : Value → String
  | int _ => "integer"
  | float _ => "float"
  | str _ => "string"
  | bool _ => "boolean"
  | json _ => "json"
  | date _ => "date"
  | timestamp _ => "timestamp"
  | wallTime _ => "naive timestamp"
  | list _ => "list"
  | null => "null"

mutual

/-- **The JSON form**, in which the value enters a document. -/
def toJson : Value → Json
  | int n => .ofInt64 n
  | float x => .ofFloat x
  | str s => .str s
  | bool b => .bool b
  | json j => j
  | date d => .str d.text
  | timestamp s => .str s.text
  | wallTime t => .str t.text
  | list items => .arr (toJsons items)
  | null => .null

/-- The JSON forms of the items of a list. -/
def toJsons : List Value → List Json
  | [] => []
  | v :: rest => v.toJson :: toJsons rest

end

mutual

/-- **The text of a value**, in which messages quote it. -/
def text : Value → String
  | int n => toString n.toInt
  | float x => Decimal.Layout.plain.render x
  | str s => s
  | bool b => if b then "true" else "false"
  | json j => j.display
  | date d => d.text
  | timestamp s => s.text
  | wallTime t => t.text
  | list items => "[" ++ texts items ++ "]"
  | null => "null"

/-- The texts of the items of a list, with commas between them. -/
def texts : List Value → String
  | [] => ""
  | [v] => v.text
  | v :: rest => v.text ++ ", " ++ texts rest

end

end Value

end SearchCompiler
