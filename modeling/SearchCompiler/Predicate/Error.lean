/-! # Errors of predicates -/

namespace SearchCompiler

/-- **Why a text or a tuple is no predicate.** -/
inductive PredicateError where
  /-- The text does not follow the grammar; columns count from one. -/
  | malformed (input : String) (column : Nat)
  | unsupported (op : String)
  /-- A condition without values. -/
  | empty (field : String)
  deriving DecidableEq, Repr

def PredicateError.message : PredicateError → String
  | malformed input column => s!"Parse error in '{input}' at column {column}"
  | unsupported op => s!"Unsupported operator: {op}"
  | empty field => s!"Condition on '{field}' has no values"

end SearchCompiler
