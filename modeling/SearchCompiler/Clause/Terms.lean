import SearchCompiler.Clause.Field

/-! # Matches of one of several values -/

namespace SearchCompiler

/-- **A match of one of several values.** The list of values stands under the name of the field,
beside the options. -/
structure Terms where
  field : String
  params : Params

namespace Terms

def new (field : String) (v : Version) : Except ClauseError Terms := do
  let field ← requireField .terms field
  return { field := field, params := ← Params.new v [] }

/-- **The document of a clause.** -/
def document (c : Terms) : Json := .single ClauseKind.terms.name c.params.toJson

def withValues (c : Terms) (values : List Json) : Terms :=
  { c with params := c.params.put c.field (.arr values) }

def withBoost (c : Terms) (x : Float) : Terms :=
  { c with params := c.params.put "boost" (.ofFloat x) }

def values (c : Terms) : List Json := c.params.list c.field

def boost? (c : Terms) : Option Float := (c.params.get? "boost").bind Json.float?

/-- The field of a document: the first key with a list, a boost not counting. -/
def fieldOf? (members : List (String × Json)) : Option String :=
  (members.find? fun e => e.1 != "boost" && e.2.arr?.isSome).map (·.1)

/-- **Rebuilds a clause** from the body of its document. -/
def ofBody (body : Json) (v : Version) : Except ClauseError Terms :=
  match body with
  | .obj members =>
    match fieldOf? members with
    | some field => do
      let c ← new field v
      return { c with params := c.params.putAll members }
    | none => .error (.missing .terms .valueList)
  | body => .error (.malformed (some .terms) (.notAMapping body))

end Terms

end SearchCompiler
