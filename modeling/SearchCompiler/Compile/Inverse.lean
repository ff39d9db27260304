import SearchCompiler.Compile.Error

/-! # Moving a constant across an operator

A comparison of `field + constant` with a value is one of the field with the value less the
constant, and likewise for the other operators. The field stands in one of five places; the constant
is moved to the value by the inverse operation. Integers are moved exactly, in 64 bits; everything
else is computed in floating point.

* `Inverse.apply`: the value the field is compared with.
* `Inverse.flipsOrder`: does moving the constant reverse an order? -/

namespace SearchCompiler

/-- **The place of the field** in an arithmetic node. -/
inductive Position where
  | addend
  | minuend
  | subtrahend
  | factor
  | dividend
  deriving DecidableEq, Repr

namespace Position

def op : Position → Op
  | addend => .add
  | minuend | subtrahend => .sub
  | factor => .mul
  | dividend => .div

/-- The place of a field on the left or the right of an operator. -/
def ofOp (o : Op) (fieldOnLeft : Bool) : Compile Position :=
  match o, fieldOnLeft with
  | .add, _ => .ok addend
  | .sub, true => .ok minuend
  | .sub, false => .ok subtrahend
  | .mul, _ => .ok factor
  | .div, true => .ok dividend
  | .div, false => .error (.notImplemented .fieldAsDivisor)
  | .xor, _ => .error (.notImplemented .exclusiveOr)
  | o, _ => .error (.unsupported (.anywhere o))

/-- Is the constant multiplied or divided by? -/
def isScaled : Position → Bool
  | factor | dividend => true
  | _ => false

/-- **The value of the field** that makes the node with constant `k` equal to `v`, if it is an
integer. -/
def solve? (p : Position) (k v : Int) : Option Int :=
  match p with
  | addend => some (v - k)
  | minuend => some (v + k)
  | subtrahend => some (k - v)
  | factor => if v % k = 0 then some (v / k) else none
  | dividend => some (v * k)

/-- The value of the field in floating point. -/
def solveFloat (p : Position) (k v : Float) : Float :=
  match p with
  | addend => v - k
  | minuend => v + k
  | subtrahend => k - v
  | factor => v / k
  | dividend => v * k

end Position

/-- **A constant**: its nearest float, and the integer it is, if it is one of 64 bits. -/
structure Constant where
  number : Float
  whole : Option Int64
  deriving DecidableEq

namespace Constant

/-- The constant of a literal. -/
def ofValue (v : Value) : Compile Constant :=
  match v.float? with
  | none => .error (.arithmetic (.notANumber v))
  | some x =>
    if Decimal.isFinite x then .ok ⟨x, v.int64?⟩ else .error (.arithmetic (.notFinite v))

def isZero (c : Constant) : Bool := c.number == 0

def isNegative (c : Constant) : Bool := decide (c.number < 0)

end Constant

/-- **What is to be done to the value** that an arithmetic node is compared with. -/
structure Inverse where
  position : Position
  constant : Constant
  deriving DecidableEq

namespace Inverse

/-- The inverse of an operator with a constant. A factor must not be zero. -/
def new (o : Op) (constant : Value) (fieldOnLeft : Bool) : Compile Inverse := do
  let c ← Constant.ofValue constant
  let p ← Position.ofOp o fieldOnLeft
  if p.isScaled && c.isZero then .error (.arithmetic (.zeroFactor o)) else return ⟨p, c⟩

/-- **Does moving the constant reverse an order?** -/
def flipsOrder (i : Inverse) : Bool :=
  match i.position with
  | .subtrahend => true
  | .factor | .dividend => i.constant.isNegative
  | .addend | .minuend => false

/-- Moves the constant in floating point. -/
def applyFloat (i : Inverse) (v : Value) : Compile Value :=
  match v.float? with
  | some x => .ok (.float (i.position.solveFloat i.constant.number x))
  | none => .error (.arithmetic (.comparedWithNoNumber v))

/-- Moves an integer constant to an integer value. -/
def applyWhole (i : Inverse) (k n : Int64) (v : Value) : Compile Value :=
  match i.position.solve? k.toInt n.toInt with
  | none => i.applyFloat v
  | some x =>
    match toInt64? x with
    | some x => .ok (.int x)
    | none => .error (.arithmetic (.overflow k i.position.op n))

/-- **Moves the constant to a value.** -/
def apply (i : Inverse) (v : Value) : Compile Value :=
  match i.constant.whole, v.int64? with
  | some k, some n => i.applyWhole k n v
  | _, _ => i.applyFloat v

end Inverse

end SearchCompiler
