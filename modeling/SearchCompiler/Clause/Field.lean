import SearchCompiler.Clause.Params

/-! # Clauses about one field

Four kinds of clauses are about a single field and have their parameters under its name: exact
terms, full-text searches, ranges and sort keys. A query stands under the name of its kind as well;
a sort key does not. -/

namespace SearchCompiler

/-- The kinds of clauses about a single field. -/
inductive FieldKind where
  | term
  | fullText
  | range
  | sort
  deriving DecidableEq, Repr

def FieldKind.toClauseKind : FieldKind → ClauseKind
  | term => .term
  | fullText => .fullText
  | range => .range
  | sort => .sort

/-- **A clause about one field.** -/
structure FieldClause (k : FieldKind) where
  field : String
  params : Params

/-- An exact match. -/
abbrev Term := FieldClause .term

/-- A search for the words of a text. -/
abbrev FullText := FieldClause .fullText

/-- A range of values. -/
abbrev Range := FieldClause .range

/-- One key of an ordering. -/
abbrev SortKey := FieldClause .sort

/-- One end of a range. -/
inductive Bound where
  | gt
  | gte
  | lt
  | lte
  deriving DecidableEq, Repr

namespace Bound

def all : List Bound := [gt, gte, lt, lte]

def key : Bound → String
  | gt => "gt"
  | gte => "gte"
  | lt => "lt"
  | lte => "lte"

def isLower : Bound → Bool
  | gt | gte => true
  | lt | lte => false

end Bound

/-- The name of a field, unless there is nothing in it but blanks. -/
def requireField (k : ClauseKind) (field : String) : Except ClauseError String :=
  if (Text.trimChars field.toList).isEmpty then .error (.missing k .fieldName) else .ok field

namespace FieldClause

variable {k : FieldKind}

/-- A clause without parameters. -/
def new (k : FieldKind) (field : String) (v : Version) : Except ClauseError (FieldClause k) := do
  let field ← requireField k.toClauseKind field
  return { field := field, params := ← Params.new v [] }

/-- **The document of a clause.** -/
def document (c : FieldClause k) : Json :=
  match k with
  | .sort => .single c.field c.params.toJson
  | k => .single k.toClauseKind.name (.single c.field c.params.toJson)

/-- Writes a parameter. -/
def put (c : FieldClause k) (key : String) (v : Json) : FieldClause k :=
  { c with params := c.params.put key v }

/-- Writes every parameter of a mapping. -/
def putAll (c : FieldClause k) (members : List (String × Json)) : FieldClause k :=
  { c with params := c.params.putAll members }

def get? (c : FieldClause k) (key : String) : Option Json := c.params.get? key

/-- A parameter as text. -/
def text? (c : FieldClause k) (key : String) : Option String := (c.get? key).bind Json.str?

def withBoost (c : FieldClause k) (x : Float) : FieldClause k := c.put "boost" (.ofFloat x)

def boost? (c : FieldClause k) : Option Float := (c.get? "boost").bind Json.float?

/-- The field and the parameters in the body of a document. -/
def entry (k : FieldKind) (body : Json) : Except ClauseError (String × Json) :=
  body.soleEntry.mapError (.malformed (some k.toClauseKind))

/-- Rebuilds a clause from the body of its document. In place of the parameters the value of the
main one may stand alone. -/
def ofBody (k : FieldKind) (main : String) (body : Json) (v : Version) :
    Except ClauseError (FieldClause k) := do
  let (field, params) ← entry k body
  let c ← new k field v
  return match params with
    | .obj members => c.putAll members
    | value => c.put main value

end FieldClause

namespace Term

def withValue (c : Term) (v : Json) : Term := c.put "value" v

def value? (c : Term) : Option Json := c.get? "value"

/-- **Rebuilds a term**; the value may stand alone. -/
def ofBody (body : Json) (v : Version) : Except ClauseError Term :=
  FieldClause.ofBody .term "value" body v

end Term

namespace FullText

def withQuery (c : FullText) (v : Json) : FullText := c.put "query" v
def withAnalyzer (c : FullText) (s : String) : FullText := c.put "analyzer" (.str s)
def withFuzziness (c : FullText) (v : Json) : FullText := c.put "fuzziness" v

/-- Sets how the words are joined: `and` asks for all of them. -/
def withOperator (c : FullText) (s : String) : FullText := c.put "operator" (.str s)

def withZeroTermsQuery (c : FullText) (s : String) : FullText := c.put "zero_terms_query" (.str s)

def withCutoffFrequency (c : FullText) (x : Float) : FullText :=
  c.put "cutoff_frequency" (.ofFloat x)

def query? (c : FullText) : Option Json := c.get? "query"
def operator? (c : FullText) : Option String := c.text? "operator"
def analyzer? (c : FullText) : Option String := c.text? "analyzer"
def fuzziness? (c : FullText) : Option Json := c.get? "fuzziness"

/-- **Rebuilds a full-text search**; the query may stand alone. -/
def ofBody (body : Json) (v : Version) : Except ClauseError FullText :=
  FieldClause.ofBody .fullText "query" body v

end FullText

namespace Range

def withBound (c : Range) (b : Bound) (v : Json) : Range := c.put b.key v

/-- Sets the form in which bounds given as text are read. -/
def withFormat (c : Range) (s : String) : Range := c.put "format" (.str s)

def withTimeZone (c : Range) (s : String) : Range := c.put "time_zone" (.str s)
def bound? (c : Range) (b : Bound) : Option Json := c.get? b.key
def format? (c : Range) : Option String := c.text? "format"
def timeZone? (c : Range) : Option String := c.text? "time_zone"

/-- **Rebuilds a range.** -/
def ofBody (body : Json) (v : Version) : Except ClauseError Range := do
  let (field, params) ← FieldClause.entry .range body
  match params with
  | .obj members => return (← FieldClause.new .range field v).putAll members
  | _ => .error (.malformed (some .range) (.parametersNoMapping field))

end Range

namespace SortKey

def withOrder (c : SortKey) (o : SortOrder) : SortKey := c.put "order" (.str o.text)

/-- Sets how several values of one document are reduced to one. -/
def withMode (c : SortKey) (s : String) : SortKey := c.put "mode" (.str s)

def withUnit (c : SortKey) (s : String) : SortKey := c.put "unit" (.str s)
def withNestedPath (c : SortKey) (s : String) : SortKey := c.put "nested_path" (.str s)
def withNestedFilter (c : SortKey) (v : Json) : SortKey := c.put "nested_filter" v

def order? (c : SortKey) : Option SortOrder :=
  (c.text? "order").bind fun s => (SortOrder.read s).toOption

def mode? (c : SortKey) : Option String := c.text? "mode"
def nestedPath? (c : SortKey) : Option String := c.text? "nested_path"

/-- **Rebuilds a sort key** from its document. The name of the field may stand alone, and so may the
direction in place of the parameters. -/
def ofDocument (doc : Json) (v : Version) : Except ClauseError SortKey := do
  match doc with
  | .str field => FieldClause.new .sort field v
  | doc =>
    let (field, params) ← FieldClause.entry .sort doc
    let c ← FieldClause.new .sort field v
    match params with
    | .obj members => return c.putAll members
    | .str order =>
      match SortOrder.read order with
      | .ok o => return SortKey.withOrder c o
      | .error e => .error (.malformed none (.sortOrder e))
    | other => .error (.malformed (some .sort) (.unexpectedParameters field other))

end SortKey

end SearchCompiler
