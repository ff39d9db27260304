import SearchCompiler.Clause.Basic
import SearchCompiler.Compile.Inverse
import SearchCompiler.Field.Validate

/-! # Leaves

What an expression that is no connective compiles to. A comparison becomes a clause on its field,
with a flag if the clause is to be negated. An arithmetic node becomes its field and the inverse for
the values it is compared with. An aggregation becomes a metric.

In a comparison one side is the field. A declared field comes first, then a bare name, then a text
on the left; the other side is the value. -/

namespace SearchCompiler

/-- The field of a leaf. -/
structure FieldRef where
  name : String
  /-- The declared field that validates values; a bare name has none. -/
  declared : Option Field

namespace FieldRef

def bare (n : String) : FieldRef := ⟨n, none⟩

/-- A declared field, which has to have a name. -/
def ofField (o : Op) (f : Field) : Compile FieldRef :=
  match f.name with
  | some n => .ok ⟨n, some f⟩
  | none => .error (.ambiguous o .unnamedField)

/-- The value as the field takes it. -/
def validate (r : FieldRef) (v : Value) : Compile Value :=
  match r.declared with
  | some f => Compile.ofField (f.validate v)
  | none => .ok v

end FieldRef

/-- **What an expression without connectives compiles to.** -/
inductive Compiled where
  | clause (c : Clause) (inverted : Bool)
  | operand (field : FieldRef) (inverse : Inverse)
  | metric (field : String) (kind : MetricKind)

/-- The metric of an aggregation. -/
def Op.metric? : Op → Option MetricKind
  | .count => some .count
  | .sum => some .sum
  | .max => some .max
  | .min => some .min
  | .avg => some .avg
  | _ => none

/-- The end of a range that an ordering asks for. -/
def Op.bound? : Op → Option Bound
  | .lt => some .lt
  | .lte => some .lte
  | .gt => some .gt
  | .gte => some .gte
  | _ => none

namespace Leaf

/-- The field, the constant and the place of an arithmetic node. -/
def arithmetic (o : Op) (lhs rhs : Operand) : Compile (FieldRef × Inverse) := do
  if o = .xor then .error (.notImplemented .exclusiveOr)
  else
    match lhs, rhs with
    | .expr _, _ | _, .expr _ => .error (.ambiguous o .nestedArithmetic)
    | .field f, .value k => return (← FieldRef.ofField o f, ← Inverse.new o k true)
    | .name n, .value k => return (.bare n, ← Inverse.new o k true)
    | .value k, .field f => return (← FieldRef.ofField o f, ← Inverse.new o k false)
    | .value k, .name n => return (.bare n, ← Inverse.new o k false)
    | _, _ => .error (.ambiguous o .notFieldAndConstant)

/-- The metric of an aggregation. -/
def aggregation (o : Op) (x : Operand) : Compile Compiled := do
  match o.metric? with
  | none => .error (.unsupported (.anywhere o))
  | some kind =>
    match x with
    | .field f => return .metric (← FieldRef.ofField o f).name kind
    | .name n | .value (.str n) => return .metric n kind
    | x => .error (.ambiguous o (.cannotAggregate x))

/-! ### Comparisons -/

/-- One side of a comparison. -/
inductive Side where
  | field (f : FieldRef) (inverse : Option Inverse)
  | name (n : String)
  | text (s : String)
  | literal (v : Value)

/-- The side as the value of a comparison. -/
def Side.toValue (o : Op) : Side → Compile Value
  | name s | text s => .ok (.str s)
  | literal v => .ok v
  | field f _ => .error (.ambiguous o (.bothFields f.name))

/-- **A field and the value it is compared with.** -/
structure Comparison where
  field : FieldRef
  inverse : Option Inverse
  value : Value
  fieldOnLeft : Bool

namespace Comparison

/-- Finds out which side is the field. -/
def ofSides (o : Op) (l r : Side) : Compile Comparison := do
  match l, r with
  | .field f i, other => return ⟨f, i, ← other.toValue o, true⟩
  | other, .field f i => return ⟨f, i, ← other.toValue o, false⟩
  | .name n, other => return ⟨.bare n, none, ← other.toValue o, true⟩
  | other, .name n => return ⟨.bare n, none, ← other.toValue o, false⟩
  | .text n, .text s => return ⟨.bare n, none, .str s, true⟩
  | _, _ => .error (.ambiguous o .noField)

/-- The operator as it holds between the field and the prepared value. -/
def effectiveOp (c : Comparison) (o : Op) : Op :=
  let o := if c.fieldOnLeft then o else o.converse
  match c.inverse with
  | some i => if i.flipsOrder then o.converse else o
  | none => o

/-- Validates a value and moves the constant to it. -/
def prepare (c : Comparison) (v : Value) : Compile Value := do
  let v ← c.field.validate v
  match c.inverse with
  | some i => i.apply v
  | none => return v

/-- Prepares every value of a list. -/
def prepareAll (c : Comparison) (vs : List Value) : Compile (List Json) :=
  vs.mapM fun v => do return (← c.prepare v).toJson

/-- Prepares the value of the comparison, or each item of it if it is a list. -/
def prepared (c : Comparison) : Compile Json := do
  match c.value with
  | .list vs => return .arr (← c.prepareAll vs)
  | v => return (← c.prepare v).toJson

/-- The brackets that a text of several values may stand in. -/
def isBracket (c : Char) : Bool := c == '(' || c == ')' || c == '[' || c == ']'

/-- The values in a text: what stands between its commas and semicolons, trimmed. -/
def valuesOfText (s : String) : List Value :=
  (Text.splitAtAny (fun c => c == ',' || c == ';') (s.toList.filter fun c => !isBracket c)).map
    fun cs => .str (String.ofList (Text.trimChars cs))

/-- **The values of a membership.** A value that is no list counts by its text. -/
def valuesOf : Value → List Value
  | .list vs => vs
  | .json (.arr items) => items.map .json
  | v => valuesOfText v.text

/-- **The clause of a comparison** by an operator between the field and the prepared value, and
whether it is to be negated. -/
def clause (c : Comparison) (v : Version) (o : Op) : Compile (Clause × Bool) := do
  let n := c.field.name
  match o with
  | .lt | .lte | .gt | .gte =>
    let value ← c.prepared
    let range ← Compile.ofClause (FieldClause.new .range n v)
    return (.range (o.bound?.elim range fun b => Range.withBound range b value), false)
  | .eq | .ne =>
    let value ← c.prepared
    let term ← Compile.ofClause (FieldClause.new .term n v)
    return (.term (Term.withValue term value), o == .ne)
  | .isIn =>
    let values ← c.prepareAll (valuesOf c.value)
    let terms ← Compile.ofClause (Terms.new n v)
    return (.terms (terms.withValues values), false)
  | .textMatch | .matchAll | .notMatch =>
    let query ← c.prepared
    let search ← Compile.ofClause (FieldClause.new .fullText n v)
    let search := FullText.withQuery search query
    let search := if o = .matchAll then FullText.withOperator search "and" else search
    return (.fullText search, o == .notMatch)
  | .like | .notLike => .error (.notImplemented (.operator o))
  | o => .error (.unsupported (.anywhere o))

end Comparison

mutual

/-- **Compiles an expression without connectives.** -/
def compile (v : Version) : Expr → Compile Compiled
  | .node o l r =>
    match o.cls with
    | .relational => do
      let l ← side v o l
      let r ← side v o r
      let c ← Comparison.ofSides o l r
      let (clause, inverted) ← c.clause v (c.effectiveOp o)
      return .clause clause inverted
    | .arithmetic => do
      let (f, i) ← arithmetic o l r
      return .operand f i
    | .aggregation => aggregation o l
    | .logical => .error (.unsupported (.asLeaf o))

/-- What one side of a comparison is. -/
def side (v : Version) (o : Op) : Operand → Compile Side
  | .field f => do return .field (← FieldRef.ofField o f) none
  | .name n => .ok (.name n)
  | .value (.str s) => .ok (.text s)
  | .value x => .ok (.literal x)
  | .expr e => do
    match ← compile v e with
    | .operand f i => return .field f (some i)
    | _ => .error (.unsupported (.asOperand e.op o))

end

end Leaf

end SearchCompiler
