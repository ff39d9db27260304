import SearchCompiler.Predicate.Expr
import SearchCompiler.Schema.Basic

/-! # Binding names to declared fields

A name in a predicate that a schema declares is replaced by its field, so that the field validates
what it is compared with. The left side is bound, and the right side if the left one is a literal;
expressions are bound on both sides. -/

namespace SearchCompiler

mutual

/-- **Binds the names of an expression.** -/
def Expr.bind (s : Schema) : Expr → Expr
  | .node o l r =>
    let bound := r.bind s
    .node o (l.bind s)
      (match l, r with
        | _, .expr _ => bound
        | .value _, _ => bound
        | _, r => r)

/-- Binds one side. -/
def Operand.bind (s : Schema) : Operand → Operand
  | .expr e => .expr (e.bind s)
  | .name n => (s.lookup? n).elim (.name n) .field
  | x => x

end

end SearchCompiler
