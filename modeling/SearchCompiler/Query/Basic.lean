import SearchCompiler.Compile.Request
import SearchCompiler.Predicate.Grammar
import SearchCompiler.Predicate.Tuple
import SearchCompiler.Query.Binding

/-! # Queries

A query is a statement under construction, with the schema that names are bound to and the index it
is sent to. Each step adds to the statement; predicates are joined by AND. A query compiles as a
whole, or page by page: a page starts after the last hit of the one before it, and for that the
ordering is made total by the identity of documents. -/

namespace SearchCompiler

/-- What can be given as a predicate. -/
inductive PredicateSource where
  | expr (e : Expr)
  | text (s : String)
  | tuple (t : TupleCondition)

/-- The expression of a predicate. -/
def PredicateSource.toExpr : PredicateSource → Compile Expr
  | expr e => .ok e
  | text s => Compile.ofPredicate (Expr.read s)
  | tuple t => Compile.ofPredicate t.toExpr

/-- What can be given as an entry of an ordering. -/
inductive OrderSource where
  | key (k : String) (o : SortOrder)
  | text (s : String)

/-- The key of an aggregation in an ordering. -/
def Expr.orderKey (e : Expr) : Compile String :=
  match e.op.metric? with
  | none => .error (.unsupported (.anywhere e.op))
  | some kind =>
    match e.lhs with
    | .name n | .value (.str n) => .ok (Metric.mk n kind).key
    | x => .error (.ambiguous e.op (.cannotOrder x))

/-- The key of the target of an ordering. -/
def Selection.orderKey : Selection → Compile String
  | name n => .ok n
  | aggregate e => e.orderKey

/-- The key and the direction of an entry. -/
def OrderSource.entry : OrderSource → Compile (String × SortOrder)
  | key k o => .ok (k, o)
  | text s => do
    let e ← Compile.ofPredicate (OrderEntry.read s)
    return (← e.target.orderKey, e.order)

/-- **A query.** -/
structure Query where
  schema : Option Schema := none
  index : Option String := none
  docType : Option String := none
  statement : Statement := {}

/-- **A compiled query** and where it is sent. -/
structure CompiledSearch where
  index : Option String
  docType : Option String
  body : Json

/-- The compiled query as a document; a type that is not given is left out. -/
def CompiledSearch.document (s : CompiledSearch) : Json :=
  .mkObj ([("index", s.index.elim .null .str), ("body", s.body)] ++
    s.docType.toList.map fun t => ("doc_type", .str t))

namespace Query

instance : Inhabited Query := ⟨{}⟩

/-- A query on the documents of a schema. -/
def ofSchema (s : Schema) : Query :=
  { schema := some s, index := some s.index, docType := some s.docType }

def withIndex (q : Query) (s : String) : Query := { q with index := some s }

def withDocType (q : Query) (s : String) : Query := { q with docType := some s }

/-- A column; a name is read as a column in text. -/
def column : Operand → Compile Operand
  | .name s => do
    match ← Compile.ofPredicate (Selection.read s) with
    | .name n => return .name n
    | .aggregate e => return .expr e
  | x => .ok x

/-- Adds output columns. -/
def select (q : Query) (columns : List Operand) : Compile Query := do
  let columns ← columns.mapM column
  return { q with statement := { q.statement with columns := q.statement.columns ++ columns } }

/-- A predicate joined to the one before it. -/
def joined (e : Expr) : Option Expr → Expr
  | none => e
  | some before => .node .and (.expr before) (.expr e)

/-- **Adds a predicate**, its names bound to the fields of the schema. -/
def restrict (q : Query) (p : PredicateSource) : Compile Query := do
  let e ← p.toExpr
  let e := q.schema.elim e fun s => e.bind s
  return { q with statement := { q.statement with filter := joined e q.statement.filter } }

/-- Adds fields to group by. -/
def groupBy (q : Query) (groups : List Operand) : Query :=
  { q with statement := { q.statement with groupBy := q.statement.groupBy ++ groups } }

/-- Adds an entry to the ordering. An aggregation orders buckets by its metric. -/
def orderBy (q : Query) (entry : OrderSource) : Compile Query := do
  let (k, o) ← entry.entry
  return { q with statement := { q.statement with orderBy := q.statement.orderBy.insert k o } }

def limit (q : Query) (n : Nat) : Query :=
  { q with statement := { q.statement with limit := some n } }

def offset (q : Query) (n : Nat) : Query :=
  { q with statement := { q.statement with offset := some n } }

/-- **Compiles a query** to the document of its request. -/
def compile (q : Query) (c : Config) : Compile Json := q.statement.compile c

/-- The body with the place it is sent to. -/
def search (q : Query) (body : Json) : CompiledSearch := ⟨q.index, q.docType, body⟩

/-- Compiles a query, with the place it is sent to. -/
def build (q : Query) (c : Config) : Compile CompiledSearch := do
  return q.search (← q.compile c)

/-- The key that no two documents share. -/
def tieBreaker : String := "_id"

/-- Makes the ordering of a request total. -/
def breakTies (q : Query) (v : Version) (r : Request) : Compile Request := do
  if q.statement.orderBy.contains tieBreaker then return r
  else
    let sort ← Compile.ofClause (FieldClause.new .sort tieBreaker v)
    return r.withSort (SortKey.withOrder sort .asc)

/-- Starts a request after a hit, given by its sort values. -/
def startAfter (cursor : Option (List Json)) (r : Request) : Request :=
  match cursor with
  | some values => r.clearOffset.withSearchAfter values
  | none => r

/-- **Compiles one page of a query:** the first one, or the one after a hit. -/
def page (q : Query) (c : Config) (cursor : Option (List Json)) : Compile CompiledSearch := do
  if q.statement.limit.isNone || q.statement.orderBy.isEmpty then .error .pageWithoutOrder
  else
    let request ← Request.ofStatement c q.statement
    let request ← q.breakTies c.version request
    return q.search (startAfter cursor request).document

end Query

end SearchCompiler
