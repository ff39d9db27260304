import SearchCompiler.Predicate.Error
import SearchCompiler.Predicate.Expr
import SearchCompiler.SortOrder

/-! # The text form of predicates

Three forms of text: a condition `field operator value`, a selected column (a name or an aggregation
such as `max(size)`) and an ordering `target, direction`. Blanks around the text do not count;
between its parts any run of spaces, tabs and line ends may stand, also none.

A reader of a part gives the part and the text after it, or else the text left at the furthest place
where a part was expected and not found. The column of an error message is that place.

* `Condition.read`, `Selection.read`, `OrderEntry.read`: the three forms. -/

namespace SearchCompiler

namespace Grammar

/-- The text left where a part is missing, or the part and the text after it. -/
abbrev Reader (α : Type) := List Char → Except (List Char) (α × List Char)

/-- A blank between two parts. -/
def isGap (c : Char) : Bool := c == ' ' || c == '\t' || c == '\r' || c == '\n'

def skip (cs : List Char) : List Char := cs.dropWhile isGap

/-- A letter, digit or underscore, which no keyword has after it. -/
def isWordChar (c : Char) : Bool := c.isAlphanum || c == '_'

/-- A character of an identifier. -/
def isIdentChar (c : Char) : Bool := isWordChar c || c == '.' || c == '@' || c == '$'

/-- Takes a text of lower-case letters off the front, in any case. -/
def strip? : List Char → List Char → Option (List Char)
  | [], cs => some cs
  | _ :: _, [] => none
  | w :: ws, c :: cs => if c.toLower = w then strip? ws cs else none

/-- No keyword goes on here. -/
def endsWord : List Char → Bool
  | [] => true
  | c :: _ => !isWordChar c

/-- Takes a whole keyword off the front. -/
def word? (w : String) (cs : List Char) : Option (List Char) :=
  (strip? w.toList cs).filter endsWord

/-- The longest run of identifier characters, at least one. -/
def ident : Reader (List Char) := fun cs =>
  match cs.takeWhile isIdentChar with
  | [] => .error cs
  | name => .ok (name, cs.dropWhile isIdentChar)

/-- The symbols of comparisons; of two that fit, the longer one comes first. -/
def symbol? : List Char → Option (Op × List Char)
  | '=' :: '=' :: rest => some (.eq, rest)
  | '<' :: '>' :: rest => some (.ne, rest)
  | '!' :: '=' :: rest => some (.ne, rest)
  | '>' :: '=' :: rest => some (.gte, rest)
  | '<' :: '=' :: rest => some (.lte, rest)
  | '=' :: rest => some (.eq, rest)
  | '>' :: rest => some (.gt, rest)
  | '<' :: rest => some (.lt, rest)
  | _ => none

/-- The first keyword of a list that fits. -/
def firstWord? (ws : List (String × Op)) (cs : List Char) : Option (Op × List Char) :=
  ws.findSome? fun e => (word? e.1 cs).map fun rest => (e.2, rest)

/-- The keywords after `not`. -/
def negatedWords : List (String × Op) := [("like", .notLike), ("match", .notMatch)]

/-- The keywords that stand alone. -/
def plainWords : List (String × Op) :=
  [("matchall", .matchAll), ("match", .textMatch), ("like", .like), ("in", .isIn)]

/-- **An operator** between a field and a value. -/
def comparator : Reader Op := fun cs =>
  match word? "not" cs with
  | some rest =>
    match firstWord? negatedWords (skip rest) with
    | some r => .ok r
    | none => .error (skip rest)
  | none =>
    match (firstWord? plainWords cs).or (symbol? cs) with
    | some r => .ok r
    | none => .error cs

/-- The names of aggregations. -/
def functionNames : List String := ["count", "sum", "max", "min", "avg", "distinct"]

/-- The name of an aggregation, as it is written. -/
def functionName? (cs : List Char) : Option (List Char × List Char) :=
  functionNames.findSome? fun w =>
    (strip? w.toList cs).map fun rest => (cs.take w.length, rest)

/-- What an aggregation ranges over: a name or a star. -/
def target : Reader (List Char)
  | '*' :: rest => .ok (['*'], rest)
  | cs => ident cs

/-- Of two places, the one further on. -/
def further (a b : List Char) : List Char := if b.length < a.length then b else a

/-- Where the target of an aggregation was looked for as a star and not found. -/
def starMiss (cs start : List Char) : List Char :=
  match cs with
  | '*' :: _ => start
  | _ => cs

/-- **An aggregation**, as the name of the function and its target. -/
def aggregateCall : Reader (List Char × List Char) := fun cs =>
  match functionName? cs with
  | none => .error cs
  | some (function, rest) =>
    match skip rest with
    | '(' :: rest =>
      let inside := skip rest
      match target inside with
      | .error _ => .error inside
      | .ok (t, rest) =>
        match skip rest with
        | ')' :: rest => .ok ((function, t), rest)
        | _ => .error (starMiss inside cs)
    | _ => .error cs

/-- The column of a place in a text, counted from the start of its line. -/
def column (whole left : List Char) : Nat :=
  let before := whole.take (whole.length - left.length)
  (before.reverse.takeWhile fun c => c != '\n').length + 1

/-- The expression of an aggregation, if the function is one. -/
def aggregateExpr (function t : List Char) : Except PredicateError Expr :=
  let name := String.ofList function
  match Op.read? name with
  | some o =>
    if o.cls = .aggregation then .ok (.aggregate o (.name (String.ofList t)))
    else .error (.unsupported name)
  | none => .error (.unsupported name)

/-- A text without one pair of equal quotes around it. -/
def unquote (cs : List Char) : List Char :=
  match cs with
  | q :: rest =>
    if (q = '\'' ∨ q = '"') ∧ rest.getLast? = some q then rest.dropLast else cs
  | [] => []

end Grammar

open Grammar

/-- **A condition** on a field. -/
structure Condition where
  field : String
  op : Op
  value : String
  deriving DecidableEq, Repr

namespace Condition

/-- The parts of a condition, up to the value, which is everything after the operator. -/
def parts : Reader (List Char × Op) := fun cs =>
  match ident cs with
  | .error left => .error left
  | .ok (name, rest) =>
    match comparator (skip rest) with
    | .error left => .error left
    | .ok (o, rest) =>
      match skip rest with
      | [] => .error []
      | value => .ok ((name, o), value)

/-- **Reads a condition.** -/
def read (s : String) : Except PredicateError Condition :=
  let cs := Text.trimChars s.toList
  match parts cs with
  | .error left => .error (.malformed s (column cs left))
  | .ok ((name, o), value) =>
    .ok ⟨String.ofList name, o, String.ofList (unquote (Text.trimChars value))⟩

/-- The comparison of the bare name with the text of the value. -/
def toExpr (c : Condition) : Expr := .compare c.field c.op (.str c.value)

end Condition

/-- **Reads a predicate** in text. -/
def Expr.read (s : String) : Except PredicateError Expr := (Condition.read s).map (·.toExpr)

/-- **A selected column.** -/
inductive Selection where
  | name (n : String)
  | aggregate (e : Expr)

namespace Selection

/-- An aggregation and nothing after it. -/
def call? (cs : List Char) : Option (List Char × List Char) :=
  match aggregateCall cs with
  | .ok (call, rest) => if (skip rest).isEmpty then some call else none
  | .error _ => none

/-- **Reads a selected column.** A text that is no aggregation is a name, whatever it looks like. -/
def read (s : String) : Except PredicateError Selection :=
  match call? (Text.trimChars s.toList) with
  | some (function, t) => (aggregateExpr function t).map .aggregate
  | none => .ok (.name (Text.trim s))

end Selection

/-- **An entry of an ordering.** -/
structure OrderEntry where
  target : Selection
  order : SortOrder

namespace OrderEntry

/-- The target of an ordering: an aggregation, as function and range, or a name. -/
inductive Target where
  | call (function range : List Char)
  | name (n : List Char)

/-- An aggregation, or else an identifier. The furthest place of either counts. -/
def targetPart : Grammar.Reader Target := fun cs =>
  match aggregateCall cs with
  | .ok ((function, range), rest) => .ok (.call function range, rest)
  | .error _ =>
    match ident cs with
    | .ok (n, rest) => .ok (.name n, rest)
    | .error left => .error left

/-- How far the attempt to read an aggregation came. -/
def callMiss (cs : List Char) : List Char :=
  match aggregateCall cs with
  | .ok _ => cs
  | .error left => left

/-- The comma that may stand before a direction. -/
def optionalComma (cs : List Char) : List Char :=
  match cs with
  | ',' :: rest => skip rest
  | _ => cs

/-- A direction, ascending if there is none. -/
def direction (cs : List Char) : SortOrder × List Char :=
  match word? "asc" cs, word? "desc" cs with
  | some rest, _ => (.asc, rest)
  | none, some rest => (.desc, rest)
  | none, none => (.asc, cs)

/-- The parts of an ordering. -/
def parts : Grammar.Reader (Target × SortOrder) := fun cs =>
  match targetPart cs with
  | .error left => .error (further left (callMiss cs))
  | .ok (t, rest) =>
    let (order, rest) := direction (optionalComma (skip rest))
    match skip rest with
    | [] => .ok ((t, order), [])
    | left => .error (further left (callMiss cs))

/-- **Reads an ordering.** -/
def read (s : String) : Except PredicateError OrderEntry :=
  let cs := Text.trimChars s.toList
  match parts cs with
  | .error left => .error (.malformed s (column cs left))
  | .ok ((.name n, order), _) => .ok ⟨.name (String.ofList n), order⟩
  | .ok ((.call function range, order), _) => do
    return ⟨.aggregate (← aggregateExpr function range), order⟩

end OrderEntry

end SearchCompiler
