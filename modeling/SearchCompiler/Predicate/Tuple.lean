import SearchCompiler.Predicate.Error
import SearchCompiler.Predicate.Expr

/-! # Tuple conditions

One operand compared by one operator with several values, the comparisons joined by one connective.
Operator and connective are given as text and read only when the expression is built. -/

namespace SearchCompiler

/-- **A condition with several values.** -/
structure TupleCondition where
  field : Operand
  op : String
  values : List Value
  relation : String := "and"

namespace TupleCondition

/-- Joins comparisons from the left. -/
def chain (x : Operand) (o relation : Op) (first : Expr) (values : List Value) : Expr :=
  values.foldl (fun e v => .node relation (.expr e) (.expr (.node o x (.value v)))) first

/-- An operator in text. -/
def readOp (s : String) : Except PredicateError Op :=
  match Op.read? s with
  | some o => .ok o
  | none => .error (.unsupported (Text.trim s))

/-- **The expression of a tuple condition.** -/
def toExpr (t : TupleCondition) : Except PredicateError Expr := do
  let o ← readOp t.op
  let relation ← readOp t.relation
  if relation.isLogical then
    match t.values with
    | [] => .error (.empty t.field.text)
    | v :: vs => return chain t.field o relation (.node o t.field (.value v)) vs
  else .error (.unsupported t.relation)

end TupleCondition

end SearchCompiler
