import SearchCompiler.Text.Blank
import SearchCompiler.Text.Case

/-! # Operators

The operators of predicates in four classes: connectives, comparisons, arithmetic and aggregations.
An ordering comparison has a converse, which holds when its sides are exchanged.

* `converse_converse`: the converse of the converse is the operator itself. -/

namespace SearchCompiler

/-- **An operator.** -/
inductive Op where
  | and | or
  | eq | ne | lt | lte | gt | gte | isIn | like | notLike | textMatch | matchAll | notMatch
  | add | sub | mul | div | xor
  | count | sum | max | min | avg
  deriving DecidableEq, Repr

/-- The class of an operator. -/
inductive OpClass where
  | logical
  | relational
  | arithmetic
  | aggregation
  deriving DecidableEq, Repr

def OpClass.name : OpClass → String
  | logical => "Logical"
  | relational => "Relational"
  | arithmetic => "Arithmetic"
  | aggregation => "Aggregation"

namespace Op

/-- All operators. -/
def all : List Op :=
  [and, or, eq, ne, lt, lte, gt, gte, isIn, like, notLike, textMatch, matchAll, notMatch,
   add, sub, mul, div, xor, count, sum, max, min, avg]

theorem mem_all (o : Op) : o ∈ all := by cases o <;> decide

def cls : Op → OpClass
  | and | or => .logical
  | eq | ne | lt | lte | gt | gte | isIn | like | notLike | textMatch | matchAll | notMatch =>
    .relational
  | add | sub | mul | div | xor => .arithmetic
  | count | sum | max | min | avg => .aggregation

def isLogical (o : Op) : Bool := o.cls == .logical

/-- The comparisons by order. -/
def isOrdering : Op → Bool
  | lt | lte | gt | gte => true
  | _ => false

/-- **The converse:** `a < b` says the same as `b > a`. Other operators are their own. -/
def converse : Op → Op
  | lt => gt
  | lte => gte
  | gt => lt
  | gte => lte
  | o => o

/-- The written form. -/
def text : Op → String
  | and => "AND"
  | or => "OR"
  | eq => "="
  | ne => "!="
  | lt => "<"
  | lte => "<="
  | gt => ">"
  | gte => ">="
  | isIn => "IN"
  | like => "LIKE"
  | notLike => "NOT LIKE"
  | textMatch => "MATCH"
  | matchAll => "MATCHALL"
  | notMatch => "NOT MATCH"
  | add => "+"
  | sub => "-"
  | mul => "*"
  | div => "/"
  | xor => "^"
  | count => "COUNT"
  | sum => "SUM"
  | max => "MAX"
  | min => "MIN"
  | avg => "AVG"

/-- The name as a tag of data. -/
def tag : Op → String
  | and => "And"
  | or => "Or"
  | eq => "Eq"
  | ne => "Ne"
  | lt => "Lt"
  | lte => "Lte"
  | gt => "Gt"
  | gte => "Gte"
  | isIn => "In"
  | like => "Like"
  | notLike => "NotLike"
  | textMatch => "Match"
  | matchAll => "MatchAll"
  | notMatch => "NotMatch"
  | add => "Add"
  | sub => "Sub"
  | mul => "Mul"
  | div => "Div"
  | xor => "Xor"
  | count => "Count"
  | sum => "Sum"
  | max => "Max"
  | min => "Min"
  | avg => "Avg"

/-- The operators by keyword, in lower case with single blanks. -/
def keywords : List (String × Op) :=
  [("and", and), ("&&", and), ("or", or), ("||", or), ("=", eq), ("==", eq), ("!=", ne),
   ("<>", ne), ("<", lt), ("<=", lte), (">", gt), (">=", gte), ("in", isIn), ("like", like),
   ("not like", notLike), ("match", textMatch), ("matchall", matchAll), ("not match", notMatch),
   ("+", add), ("-", sub), ("*", mul), ("/", div), ("^", xor), ("xor", xor), ("count", count),
   ("sum", sum), ("max", max), ("min", min), ("avg", avg)]

/-- A text as a keyword: its words in lower case with single blanks between them. -/
def keyword (s : String) : String :=
  Text.asciiLower (String.intercalate " " ((Text.words s.toList).map String.ofList))

/-- **Reads an operator** in any case, with any blanks around and inside it. -/
def read? (s : String) : Option Op :=
  (keywords.find? fun e => e.1 == keyword s).map (·.2)

theorem converse_converse (o : Op) : o.converse.converse = o := by cases o <;> rfl

theorem cls_converse (o : Op) : o.converse.cls = o.cls := by cases o <;> rfl

end Op

end SearchCompiler
