import SearchCompiler.Assoc
import SearchCompiler.Decimal.Parts
import SearchCompiler.Numeral

/-! # JSON values

A JSON value with two kinds of numbers: integers, and floats for whatever is written with a point or
an exponent or lies outside 64 bits. The members of an object are an association list sorted by key;
`Canonical` says so at every depth, and a value read from text is canonical. Two objects with the
same members are then the same value.

* `Json.get?_setField_self`, `Json.get?_setField_of_ne`: setting a member changes no other.
* `Json.get?_eraseField_self`, `Json.get?_eraseField_of_ne`: neither does erasing one. -/

namespace SearchCompiler

/-- A JSON number. -/
inductive Number where
  | int (n : Int)
  | float (x : Float)
  deriving DecidableEq

/-- **A JSON value.** -/
inductive Json where
  | null
  | bool (b : Bool)
  | num (n : Number)
  | str (s : String)
  | arr (items : List Json)
  | obj (fields : List (String × Json))

instance : Inhabited Json := ⟨.null⟩

namespace Number

/-- The nearest float. -/
def toFloat : Number → Float
  | .int n => Float.ofInt n
  | .float x => x

/-- The value as a 64-bit integer; a float has none. -/
def toInt64? : Number → Option Int64
  | .int n => SearchCompiler.toInt64? n
  | .float _ => none

/-- The value as a natural number; a float has none. -/
def toNat? : Number → Option Nat
  | .int n => if 0 ≤ n then some n.toNat else none
  | .float _ => none

end Number

namespace Json

/-- The number of a 64-bit integer. -/
def ofInt64 (n : Int64) : Json := .num (.int n.toInt)

/-- The number of a natural number. -/
def ofNat (n : Nat) : Json := .num (.int n)

/-- The number of a float; JSON has none for NaN and the infinities, which become `null`. -/
def ofFloat (x : Float) : Json := if Decimal.isFinite x then .num (.float x) else .null

/-- The list of texts. -/
def ofStrings (ss : List String) : Json := .arr (ss.map .str)

/-- An object from its members, in any order. -/
def mkObj (fields : List (String × Json)) : Json := .obj (Assoc.ofEntries fields)

/-- The object with a single member. -/
def single (k : String) (v : Json) : Json := .obj [(k, v)]

def isNull : Json → Bool
  | .null => true
  | _ => false

def isMapping : Json → Bool
  | .obj _ => true
  | _ => false

/-- The members of an object; other values have none. -/
def fields : Json → Assoc Json
  | .obj fields => fields
  | _ => []

/-- A member of an object. -/
def get? (k : String) (j : Json) : Option Json := Assoc.get? k j.fields

def str? : Json → Option String
  | .str s => some s
  | _ => none

def bool? : Json → Option Bool
  | .bool b => some b
  | _ => none

def nat? : Json → Option Nat
  | .num n => n.toNat?
  | _ => none

def float? : Json → Option Float
  | .num n => some n.toFloat
  | _ => none

def int64? : Json → Option Int64
  | .num n => n.toInt64?
  | _ => none

def arr? : Json → Option (List Json)
  | .arr items => some items
  | _ => none

/-- The texts in a list; what is no text is passed over. -/
def texts : Json → List String
  | .arr items => items.filterMap str?
  | _ => []

/-- **Sets a member.** A value that is no object is replaced by one. -/
def setField (j : Json) (k : String) (v : Json) : Json := .obj (Assoc.insert k v j.fields)

/-- The value without a member. -/
def eraseField (k : String) : Json → Json
  | .obj fields => .obj (Assoc.erase k fields)
  | j => j

@[simp] theorem fields_obj (fs : List (String × Json)) : (Json.obj fs).fields = fs := rfl

@[simp] theorem get?_setField_self (j : Json) (k : String) (v : Json) :
    (j.setField k v).get? k = some v := by
  simp [get?, setField]

theorem get?_setField_of_ne {i k : String} (h : i ≠ k) (j v : Json) :
    (j.setField k v).get? i = j.get? i := by
  simp [get?, setField, Assoc.get?_insert_of_ne h]

@[simp] theorem get?_eraseField_self (k : String) (j : Json) : (j.eraseField k).get? k = none := by
  cases j with
  | obj fields => exact Assoc.get?_erase_self k fields
  | _ => rfl

theorem get?_eraseField_of_ne {i k : String} (h : i ≠ k) (j : Json) :
    (j.eraseField k).get? i = j.get? i := by
  cases j with
  | obj fields => exact Assoc.get?_erase_of_ne h fields
  | _ => rfl

/-! ### Canonical values -/

mutual

/-- **The members of every object are sorted by key.** -/
def Canonical : Json → Prop
  | .arr items => CanonicalItems items
  | .obj fields => Assoc.Sorted fields ∧ CanonicalFields fields
  | _ => True

/-- Every value of a list is canonical. -/
def CanonicalItems : List Json → Prop
  | [] => True
  | j :: rest => j.Canonical ∧ CanonicalItems rest

/-- Every value of a member is canonical. -/
def CanonicalFields : List (String × Json) → Prop
  | [] => True
  | (_, v) :: rest => v.Canonical ∧ CanonicalFields rest

end

end Json

end SearchCompiler
