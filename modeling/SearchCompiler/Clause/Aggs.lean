import SearchCompiler.Clause.Params

/-! # Aggregations

A container of named aggregations: buckets, one for each value of a field, and metrics over a field.
A bucket may hold a container of its own. -/

namespace SearchCompiler

/-- **A metric** over the documents of a bucket. -/
inductive MetricKind where
  /-- The number of documents, which every bucket has without being asked. -/
  | count
  | sum
  | max
  | min
  | avg
  deriving DecidableEq, Repr

namespace MetricKind

def all : List MetricKind := [count, sum, max, min, avg]

def key : MetricKind → String
  | count => "count"
  | sum => "sum"
  | max => "max"
  | min => "min"
  | avg => "avg"

/-- The name of a metric over a field. -/
def metricName (k : MetricKind) (field : String) : String := k.key ++ "_" ++ field

/-- Reads a metric in any case. -/
def read (s : String) : Except ClauseError MetricKind :=
  match all.find? fun k => k.key == Text.asciiLower s with
  | some k => .ok k
  | none => .error (.unknownClause s)

end MetricKind

/-- **The order of the buckets** of a field: a key and a direction. -/
structure BucketOrder where
  key : String
  order : SortOrder
  deriving DecidableEq, Repr

namespace BucketOrder

/-- By the number of documents. -/
def byCount (o : SortOrder) : BucketOrder := ⟨"_count", o⟩

/-- By the value of the field. -/
def byKey (o : SortOrder) : BucketOrder := ⟨"_key", o⟩

/-- By a metric of the bucket. -/
def byMetric (name : String) (o : SortOrder) : BucketOrder := ⟨name, o⟩

instance : Inhabited BucketOrder := ⟨byCount .asc⟩

def toJson (b : BucketOrder) : Json := .single b.key (.str b.order.text)

end BucketOrder

/-- The name of the buckets of a field. -/
def bucketName (field : String) : String := "group_by_" ++ field

/-- **A container of aggregations.** -/
structure Aggs where
  params : Params

namespace Aggs

def new (v : Version) : Except ClauseError Aggs := return ⟨← Params.new v []⟩

/-- **The document of a container.** -/
def document (a : Aggs) : Json := a.params.toJson

/-- The node of a field's buckets. -/
def bucketNode (field : String) (order : BucketOrder) : Json :=
  .single "terms" (.mkObj [("field", .str field), ("order", order.toJson)])

/-- The node of a metric. -/
def metricNode (k : MetricKind) (field : String) : Json :=
  .single k.key (.single "field" (.str field))

/-- Adds the buckets of a field. -/
def terms (a : Aggs) (field : String) (name : Option String) (order : BucketOrder) : Aggs :=
  ⟨a.params.put (name.getD (bucketName field)) (bucketNode field order)⟩

/-- Adds a metric; a count adds nothing. -/
def metric (a : Aggs) (field : String) (k : MetricKind) (name : Option String) : Aggs :=
  if k = .count then a else ⟨a.params.put (name.getD (k.metricName field)) (metricNode k field)⟩

/-- **Puts a container into a bucket** that is there already. -/
def nest (a : Aggs) (bucket : String) (child : Aggs) : Except ClauseError Aggs :=
  match a.params.get? bucket with
  | some (.obj node) => .ok ⟨a.params.put bucket (.setField (.obj node) "aggs" child.document)⟩
  | _ => .error (.unknownBucket bucket)

def names (a : Aggs) : List String := a.params.entries.keys

def get? (a : Aggs) (name : String) : Option Json := a.params.get? name

def isEmpty (a : Aggs) : Bool := a.params.entries.isEmpty

/-- **Rebuilds a container**, every member of which has to be a mapping. -/
def ofBody (body : Json) (v : Version) : Except ClauseError Aggs :=
  match body with
  | .obj members => do
    let a ← new v
    match members.find? fun e => !e.2.isMapping with
    | some e => .error (.malformed (some .aggs) (.aggregationNoMapping e.1))
    | none => return ⟨a.params.putAll members⟩
  | body => .error (.malformed (some .aggs) (.notAMapping body))

end Aggs

end SearchCompiler
