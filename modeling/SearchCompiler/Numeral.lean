import SearchCompiler.Text.Blank

/-! # Integers in text

A numeral is an optional sign and one or more ASCII digits, nothing else. Readers of a fixed width
refuse what the width cannot hold.

* `readNat?_eq_some_iff`: a run of digits is read exactly if it is non-empty. -/

namespace SearchCompiler

/-- The 64-bit integer of this value, if there is one: its magnitude is below two to the power of
63, or it is that power with a minus sign. -/
def toInt64? (n : Int) : Option Int64 :=
  if -9223372036854775808 ≤ n ∧ n < 9223372036854775808 then some (Int64.ofInt n) else none

theorem toInt64?_eq_some_iff {n : Int} {x : Int64} : toInt64? n = some x ↔ x.toInt = n := by
  unfold toInt64?
  constructor
  · intro h
    split at h
    · next hr =>
      cases h
      exact Int64.toInt_ofInt_of_le hr.1 hr.2
    · cases h
  · rintro rfl
    rw [if_pos ⟨x.le_toInt, x.toInt_lt⟩, Int64.ofInt_toInt]

@[simp] theorem toInt64?_toInt (x : Int64) : toInt64? x.toInt = some x :=
  toInt64?_eq_some_iff.2 rfl

theorem toInt64?_eq_none_iff {n : Int} :
    toInt64? n = none ↔ n < -9223372036854775808 ∨ 9223372036854775808 ≤ n := by
  unfold toInt64?
  split <;> simp <;> omega

/-- The product of two 64-bit integers, if it is one. -/
def mulInt64? (a b : Int64) : Option Int64 := toInt64? (a.toInt * b.toInt)

theorem mulInt64?_eq_some_iff {a b c : Int64} :
    mulInt64? a b = some c ↔ c.toInt = a.toInt * b.toInt := toInt64?_eq_some_iff

namespace Numeral

/-- The value of a digit. -/
def digit (c : Char) : Nat := c.toNat - '0'.toNat

/-- The value of a run of digits. -/
def value (ds : List Char) : Nat := ds.foldl (fun n c => 10 * n + digit c) 0

/-- Reads a non-empty run of ASCII digits. -/
def readNat? (cs : List Char) : Option Nat :=
  if cs ≠ [] ∧ cs.all Char.isDigit then some (value cs) else none

/-- Reads an optional sign and digits. -/
def readInt? : List Char → Option Int
  | '+' :: ds => (readNat? ds).map fun n => (n : Int)
  | '-' :: ds => (readNat? ds).map fun n => -(n : Int)
  | ds => (readNat? ds).map fun n => (n : Int)

/-- **Reads a 64-bit integer.** -/
def readInt64? (cs : List Char) : Option Int64 := (readInt? cs).bind toInt64?

/-- Reads a 32-bit integer. -/
def readInt32? (cs : List Char) : Option Int32 :=
  (readInt? cs).bind fun n =>
    if -2147483648 ≤ n ∧ n < 2147483648 then some (Int32.ofInt n) else none

/-- Reads a 16-bit natural number, which may carry a plus sign. -/
def readUInt16? (cs : List Char) : Option Nat :=
  let ds := match cs with
    | '+' :: ds => ds
    | ds => ds
  (readNat? ds).bind fun n => if n < 65536 then some n else none

theorem readNat?_eq_some_iff {cs : List Char} {n : Nat} :
    readNat? cs = some n ↔ cs ≠ [] ∧ cs.all Char.isDigit = true ∧ value cs = n := by
  unfold readNat?
  split
  · next h => simp [h.1, h.2]
  · next h => exact ⟨fun h' => (by cases h'), fun h' => absurd ⟨h'.1, h'.2.1⟩ h⟩

/-- A number padded with zeros on the left. -/
def padded (width n : Nat) : String :=
  let ds := Nat.toDigits 10 n
  String.ofList (List.replicate (width - ds.length) '0' ++ ds)

end Numeral

end SearchCompiler
