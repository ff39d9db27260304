import SearchCompiler.Compile.Group
import SearchCompiler.Compile.Projection
import SearchCompiler.Statement.Basic

/-! # The request of a statement

A statement becomes a search request: its predicate the query, its groups one bucket inside the
other with the metrics in the innermost one, its plain columns the selected ones, and its ordering
the sort keys, as far as it does not order buckets by a metric. -/

namespace SearchCompiler

namespace Buckets

/-- The container of metrics; without metrics there is none. -/
def metrics (v : Version) (ms : List Metric) : Compile (Option Aggs) := do
  if ms.isEmpty then return none
  else
    let aggs ← Compile.ofClause (Aggs.new v)
    return some (ms.foldl (fun aggs m => aggs.metric m.field m.kind none) aggs)

/-- Does this key order buckets by a metric? -/
def isMetricKey (ms : List Metric) (k : String) : Bool :=
  k == Metric.countKey || ms.any fun m => m.key == k

/-- The order of the innermost buckets, if the ordering has a metric in it: the first one counts. -/
def metricOrder? (b : OrderBy) (ms : List Metric) : Option BucketOrder :=
  (b.entries.find? fun e => isMetricKey ms e.1).map fun e => .byMetric e.1 e.2

/-- The order of the buckets of a field. -/
def order (b : OrderBy) (ms : List Metric) (field : String) (innermost : Bool) : BucketOrder :=
  match b.get? field with
  | some o => .byKey o
  | none => if innermost then (metricOrder? b ms).getD default else default

/-- The buckets of one field with a container inside. -/
def level (v : Version) (field : String) (o : BucketOrder) (child : Option Aggs) :
    Compile Aggs := do
  let aggs := (← Compile.ofClause (Aggs.new v)).terms field none o
  match child with
  | some child => Compile.ofClause (aggs.nest (bucketName field) child)
  | none => return aggs

/-- **Buckets inside buckets**, with a container in the innermost ones. -/
def nested (v : Version) (b : OrderBy) (ms : List Metric) (inner : Option Aggs) :
    List String → Compile (Option Aggs)
  | [] => return inner
  | field :: rest => do
    let child ← nested v b ms inner rest
    return some (← level v field (order b ms field rest.isEmpty) child)

/-- **The aggregations of a statement.** -/
def ofGroups (v : Version) (b : OrderBy) (ms : List Metric) (groups : List String) :
    Compile (Option Aggs) := do
  let inner ← metrics v ms
  if groups.isEmpty then return inner.filter fun aggs => !aggs.isEmpty
  else nested v b ms inner groups

end Buckets

namespace Request

/-- The sort keys of an ordering, those of metrics left out. -/
def sortKeys (v : Version) (b : OrderBy) (ms : List Metric) : Compile (List SortKey) :=
  (b.entries.filter fun e => !Buckets.isMetricKey ms e.1).mapM fun e => do
    return SortKey.withOrder (← Compile.ofClause (FieldClause.new .sort e.1 v)) e.2

/-- **The request of a statement.** -/
def ofStatement (c : Config) (s : Statement) : Compile Request := do
  let v := c.version
  let request ← Compile.ofClause (Request.new v)
  let request := request.withQuery (← compileWhere c s.filter).document false
  let columns ← Projection.ofColumns v s.columns
  let groups ← Projection.groupNames s.groupBy
  let aggs ← Buckets.ofGroups v s.orderBy columns.metrics groups
  let request := aggs.elim request request.withAggs
  let request :=
    if columns.sources.isEmpty then request else request.withSource columns.sources
  let sorts ← sortKeys v s.orderBy columns.metrics
  let request := if sorts.isEmpty then request else request.withSorts sorts
  let request := s.limit.elim request fun n => request.withSize n true
  return s.offset.elim request fun n => request.withOffset n true

end Request

/-- **Compiles a statement** to the document of its request. -/
def Statement.compile (c : Config) (s : Statement) : Compile Json := do
  return (← Request.ofStatement c s).document

end SearchCompiler
