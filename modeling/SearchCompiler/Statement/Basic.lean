import SearchCompiler.Predicate.Expr
import SearchCompiler.Statement.OrderBy

/-! # Select statements -/

namespace SearchCompiler

/-- **A select statement:** everything a compilation needs besides its configuration. -/
structure Statement where
  filter : Option Expr := none
  /-- The output columns: fields, names and aggregations. -/
  columns : List Operand := []
  groupBy : List Operand := []
  orderBy : OrderBy := .empty
  limit : Option Nat := none
  offset : Option Nat := none

instance : Inhabited Statement := ⟨{}⟩

end SearchCompiler
