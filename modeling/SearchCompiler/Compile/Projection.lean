import SearchCompiler.Compile.Leaf

/-! # Output columns

The columns of a statement are plain fields, which the backend returns from its documents, and
metrics, which it computes. -/

namespace SearchCompiler

/-- A metric over a field. -/
structure Metric where
  field : String
  kind : MetricKind
  deriving DecidableEq, Repr

namespace Metric

/-- The key of the number of documents. -/
def countKey : String := "_count"

/-- **The key of a metric** in an ordering: its name, or that of the number of documents. -/
def key (m : Metric) : String :=
  match m.kind with
  | .count => countKey
  | k => k.metricName m.field

end Metric

/-- **The columns of a statement**, each kind in its order. -/
structure Projection where
  sources : List String
  metrics : List Metric
  deriving DecidableEq, Repr

namespace Projection

/-- The name of a plain column. -/
def columnName (role : ColumnRole) : Operand → Compile String
  | .field f =>
    match f.name with
    | some n => .ok n
    | none => .error (.projection (.unnamed role))
  | .name n => .ok n
  | .value (.str n) => .ok n
  | x => .error (.projection (.noColumn role x))

/-- Is this an aggregation? -/
def isAggregation : Operand → Bool
  | .expr e => e.op.cls == .aggregation
  | _ => false

/-- The metric of an aggregation; nothing for any other expression. -/
def metric? (v : Version) : Operand → Compile (Option Metric)
  | .expr e => do
    match ← Leaf.compile v e with
    | .metric field kind => return some ⟨field, kind⟩
    | _ => return none
  | _ => return none

/-- Takes a column to those before it. -/
def add (v : Version) (p : Projection) (x : Operand) : Compile Projection := do
  if isAggregation x then
    match ← metric? v x with
    | some m => return { p with metrics := p.metrics ++ [m] }
    | none => return p
  else return { p with sources := p.sources ++ [← columnName .output x] }

/-- **The columns of a list of operands.** -/
def ofColumns (v : Version) (columns : List Operand) : Compile Projection :=
  columns.foldlM (add v) ⟨[], []⟩

/-- The names of the fields to group by. -/
def groupNames (groups : List Operand) : Compile (List String) :=
  groups.mapM (columnName .groupKey)

end Projection

end SearchCompiler
