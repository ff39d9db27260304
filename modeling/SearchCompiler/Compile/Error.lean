import SearchCompiler.Clause.Error
import SearchCompiler.Field.Error
import SearchCompiler.Predicate.Error
import SearchCompiler.Predicate.Expr

/-! # Errors of compilation -/

namespace SearchCompiler

/-- Why it is not clear what the sides of an operator stand for. -/
inductive Ambiguity where
  /-- Both sides are fields; the right one has this name. -/
  | bothFields (right : String)
  | noField
  | unnamedField
  | nestedArithmetic
  | notFieldAndConstant
  | notAnExpression (x : Operand)
  | cannotAggregate (x : Operand)
  | cannotOrder (x : Operand)

def Ambiguity.message : Ambiguity → String
  | bothFields right => s!"both sides are fields ('{right}' on the right)"
  | noField => "neither side resolves to a field"
  | unnamedField => "field has no name"
  | nestedArithmetic => "nested arithmetic is not supported"
  | notFieldAndConstant => "expected one field and one constant"
  | notAnExpression x => "'" ++ x.text ++ "' is not an expression"
  | cannotAggregate x => "cannot aggregate over '" ++ x.text ++ "'"
  | cannotOrder x => "cannot order by an aggregation over '" ++ x.text ++ "'"

/-- Where an operator cannot stand. -/
inductive Misuse where
  | anywhere (o : Op)
  | asPredicate (o : Op)
  | asLeaf (o : Op)
  | asOperand (o outer : Op)

def Misuse.message : Misuse → String
  | anywhere o => o.text
  | asPredicate o => "'" ++ o.text ++ "' cannot be used as a predicate"
  | asLeaf o => "'" ++ o.text ++ "' is not a leaf operator"
  | asOperand o outer => "'" ++ o.text ++ "' cannot be an operand of '" ++ outer.text ++ "'"

/-- What the backend could do and this compiler does not. -/
inductive Missing where
  | operator (o : Op)
  | exclusiveOr
  | fieldAsDivisor

def Missing.message : Missing → String
  | operator o => o.text
  | exclusiveOr => "XOR"
  | fieldAsDivisor => "constant divided by a field"

/-- Why a constant cannot be moved across an operator. -/
inductive ArithmeticFault where
  | notANumber (constant : Value)
  | notFinite (constant : Value)
  | zeroFactor (o : Op)
  | comparedWithNoNumber (value : Value)
  | overflow (constant : Int64) (o : Op) (value : Int64)

def ArithmeticFault.message : ArithmeticFault → String
  | notANumber v => "'" ++ v.text ++ "' is not a number"
  | notFinite v => "'" ++ v.text ++ "' is not finite"
  | zeroFactor o => "cannot move a zero factor across '" ++ o.text ++ "'"
  | comparedWithNoNumber v => "comparison value '" ++ v.text ++ "' is not a number"
  | overflow k o v =>
    s!"moving {k.toInt} across '" ++ o.text ++ s!"' overflows for {v.toInt}"

/-- What a column is asked for. -/
inductive ColumnRole where
  | output
  | groupKey
  deriving DecidableEq, Repr

def ColumnRole.text : ColumnRole → String
  | output => "output field"
  | groupKey => "group-by key"

/-- Why an operand is no column. -/
inductive ProjectionFault where
  | unnamed (role : ColumnRole)
  | noColumn (role : ColumnRole) (x : Operand)

def ProjectionFault.message : ProjectionFault → String
  | unnamed role => role.text ++ " has no name"
  | noColumn role x => role.text ++ " must be a field or a name, got '" ++ x.text ++ "'"

/-- **Errors of compilation.** -/
inductive CompileError where
  | unsupported (use : Misuse)
  | ambiguous (o : Op) (reason : Ambiguity)
  | nestedTooDeep (limit : Nat)
  | notImplemented (what : Missing)
  | arithmetic (fault : ArithmeticFault)
  | projection (fault : ProjectionFault)
  | pageWithoutOrder
  | field (e : FieldError)
  | clause (e : ClauseError)
  | predicate (e : PredicateError)

namespace CompileError

def message : CompileError → String
  | unsupported use => "Unsupported operator: " ++ use.message
  | ambiguous o reason => "Ambiguous operands for '" ++ o.text ++ "': " ++ reason.message
  | nestedTooDeep limit => s!"Nested AND/OR groups exceed the maximum depth of {limit}"
  | notImplemented what => "Not implemented: " ++ what.message
  | arithmetic fault => "Invalid arithmetic: " ++ fault.message
  | projection fault => "Invalid projection: " ++ fault.message
  | pageWithoutOrder =>
    "Cursor pagination requires a limit and at least one order-by entry"
  | field e => e.message
  | clause e => e.message
  | predicate e => e.message

end CompileError

/-- A result that may fail to compile. -/
abbrev Compile := Except CompileError

namespace Compile

def ofField {α : Type} : Except FieldError α → Compile α := Except.mapError .field

def ofClause {α : Type} : Except ClauseError α → Compile α := Except.mapError .clause

def ofPredicate {α : Type} : Except PredicateError α → Compile α := Except.mapError .predicate

end Compile

end SearchCompiler
