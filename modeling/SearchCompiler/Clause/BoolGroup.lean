import SearchCompiler.Clause.MinimumShouldMatch
import SearchCompiler.Clause.TimeScope

/-! # Boolean groups

A boolean group has four lists of clauses: those that must hold, those that must not, alternatives,
and filters, which hold without counting towards the score. A filtered group stands inside the
filter of another one, so that none of its clauses counts towards the score. -/

namespace SearchCompiler

/-- **A boolean group.** -/
structure BoolGroup where
  filtered : Bool
  params : Params

namespace BoolGroup

/-- A group without clauses. -/
def empty (v : Version) : BoolGroup := ⟨false, .empty v []⟩

/-- A group without clauses, for a supported version. -/
def new (v : Version) : Except ClauseError BoolGroup := return ⟨false, ← Params.new v []⟩

/-- A group inside the filter of another one. -/
def newFiltered (v : Version) : Except ClauseError BoolGroup := return ⟨true, ← Params.new v []⟩

def version (g : BoolGroup) : Version := g.params.version

/-- A mapping under the name of a group. -/
def wrap (params : Json) : Json := .single ClauseKind.bool.name params

/-- **The document of a group.** -/
def document (g : BoolGroup) : Json :=
  if g.filtered then wrap (.single Occur.filter.key (wrap g.params.toJson))
  else wrap g.params.toJson

/-- Adds clauses to a list. -/
def extend (g : BoolGroup) (o : Occur) (clauses : List Json) : BoolGroup :=
  { g with params := g.params.append o.key clauses }

/-- Adds a clause to a list. -/
def push (g : BoolGroup) (o : Occur) (clause : Json) : BoolGroup := g.extend o [clause]

/-- Writes a parameter. -/
def put (g : BoolGroup) (key : String) (v : Json) : BoolGroup :=
  { g with params := g.params.put key v }

def withMinimumShouldMatch (g : BoolGroup) (m : MinimumShouldMatch) (overwrite : Bool) :
    BoolGroup :=
  { g with params := g.params.putOnce "minimum_should_match" (.str m.render) overwrite }

def withBoost (g : BoolGroup) (x : Float) : BoolGroup := g.put "boost" (.ofFloat x)

/-- A value to search for, which is neither null nor the empty text. -/
def requireValue (k : ClauseKind) (v : Json) : Except ClauseError Json :=
  match v with
  | .null | .str "" => .error (.missing k .value)
  | v => .ok v

/-- Adds an exact match. -/
def withTerm (g : BoolGroup) (field : String) (v : Json) (o : Occur) :
    Except ClauseError BoolGroup := do
  let v ← requireValue .term v
  let c ← FieldClause.new .term field g.version
  return g.push o (Term.withValue c v).document

/-- Adds a full-text search. -/
def withFullText (g : BoolGroup) (field : String) (v : Json) (o : Occur) :
    Except ClauseError BoolGroup := do
  let v ← requireValue .fullText v
  let c ← FieldClause.new .fullText field g.version
  return g.push o (FullText.withQuery c v).document

/-- Adds a range. -/
def withRange (g : BoolGroup) (r : Range) (o : Occur) : BoolGroup := g.push o r.document

/-- The field of time of a group that names none. -/
def timeField : String := "@timestamp"

/-- Filters by one end of a range of time. -/
def withTimeBound (g : BoolGroup) (field : Option String) (b : Bound) (text : String) :
    Except ClauseError BoolGroup := do
  let r ← FieldClause.new .range (field.getD timeField) g.version
  return g.withRange (Range.withBound r b (.str text)) .filter

/-- Filters by a time from which on documents count, ten days ago if none is given. -/
def withStartTime (g : BoolGroup) (field start : Option String) : Except ClauseError BoolGroup :=
  g.withTimeBound field .gte (start.getD "now-10d")

/-- Filters by a time up to which documents count, the present one if none is given. -/
def withEndTime (g : BoolGroup) (field stop : Option String) : Except ClauseError BoolGroup :=
  g.withTimeBound field .lte (stop.getD "now")

/-- **The clauses of a list.** -/
def clauses (g : BoolGroup) (o : Occur) : List Json := g.params.list o.key

def minimumShouldMatch? (g : BoolGroup) : Option Json := g.params.get? "minimum_should_match"

def boost? (g : BoolGroup) : Option Float := (g.params.get? "boost").bind Json.float?

def isEmpty (g : BoolGroup) : Bool := g.params.entries.isEmpty

/-- The parameters of a range over a field. -/
def rangeOn? (field : String) (clause : Json) : Option (Assoc Json) := do
  match ← (← clause.get? ClauseKind.range.name).get? field with
  | .obj params => some params
  | _ => none

/-- The parameters of all ranges over a field that every hit fulfils: first those among the filters,
then those that must hold. -/
def timeRanges (g : BoolGroup) (field : String) : List (Assoc Json) :=
  (g.clauses .filter ++ g.clauses .must).filterMap (rangeOn? field)

/-- **The window of days** that the ranges over a field leave. -/
def timeScope (g : BoolGroup) (field : String) (today : Date) : TimeScope :=
  (g.timeRanges field).foldl (TimeScope.narrow today) .unbounded

end BoolGroup

end SearchCompiler
