import SearchCompiler.Schema.Basic

/-! # Records

The data of one document of a schema: validated JSON under the names of fields. Setting a field that
accumulates values appends to its list, any other field is overwritten. A record becomes a document
once every required field has a value. -/

namespace SearchCompiler

/-- **The data of one document.** -/
structure Record where
  schema : Schema
  data : Assoc Json

namespace Record

/-- Puts the default of a field under its name. -/
def addDefault (data : Assoc Json) (f : Field) : Assoc Json :=
  match f.name, f.default with
  | some n, some d => Assoc.insert n d.toJson data
  | _, _ => data

/-- A record that holds the defaults. -/
def new (s : Schema) : Record := { schema := s, data := s.fields.foldl addDefault [] }

def get? (r : Record) (n : String) : Option Json := Assoc.get? n r.data

/-- A value with another one after it. -/
def appended (v : Json) : Option Json → Json
  | none => .arr [v]
  | some (.arr items) => .arr (items ++ [v])
  | some other => .arr [other, v]

/-- **Validates and stores a value.** -/
def set (r : Record) (n : String) (v : Value) : Except FieldError Record :=
  match Schema.find? n r.schema.fields with
  | none => .error (.unknownField n)
  | some f => do
    let checked := (← f.validate v).toJson
    let stored := if f.multi then appended checked (r.get? n) else checked
    return { r with data := Assoc.insert n stored r.data }

/-- The first required field without a value. -/
def missing? (r : Record) : Option String :=
  r.schema.fields.findSome? fun f =>
    if f.required then f.name.filter fun n => !Assoc.contains n r.data else none

/-- **The document.** -/
def toDocument (r : Record) : Except FieldError Json :=
  match r.missing? with
  | some n => .error (.missingRequired n)
  | none => .ok (.obj r.data)

end Record

end SearchCompiler
