import SearchCompiler.Clause.Error

/-! # Parameters of a clause

The keys that a clause writes into its document, for one version of the backend. A key that the
version does not have yet is passed over by every write and hidden from every reading, so that a
request can be put together without asking for the version at each step.

* `get?_put_self`, `get?_put_of_ne`: writing a key changes that key only. -/

namespace SearchCompiler

/-- **The parameters of a clause.** -/
structure Params where
  entries : Assoc Json
  version : Version
  gates : List Gate

namespace Params

/-- No parameters yet. -/
def empty (v : Version) (gates : List Gate) : Params :=
  { entries := [], version := v, gates := gates }

/-- No parameters yet, for a supported version. -/
def new (v : Version) (gates : List Gate) : Except ClauseError Params :=
  match v.ensureSupported with
  | .ok v => .ok (empty v gates)
  | .error e => .error (.version e)

/-- Is this a key that the version does not have? -/
def isGated (p : Params) (k : String) : Bool :=
  p.gates.any fun g => g.key == k && !g.admits p.version

/-- The parameters as a mapping. -/
def toJson (p : Params) : Json := .obj p.entries

/-- The value under a key. -/
def get? (p : Params) (k : String) : Option Json :=
  if p.isGated k then none else Assoc.get? k p.entries

/-- The list under a key; what is no list counts as an empty one. -/
def list (p : Params) (k : String) : List Json := ((p.get? k).bind Json.arr?).getD []

/-- **Replaces the value under a key** by a function of the one that is there. -/
def modify (p : Params) (k : String) (f : Option Json → Json) : Params :=
  if p.isGated k then p
  else { p with entries := Assoc.insert k (f (Assoc.get? k p.entries)) p.entries }

/-- Writes a value, replacing the one that is there. -/
def put (p : Params) (k : String) (v : Json) : Params := p.modify k fun _ => v

/-- Writes a value, unless there is one and it is to be kept. -/
def putOnce (p : Params) (k : String) (v : Json) (overwrite : Bool) : Params :=
  if !overwrite && (p.get? k).isSome then p else p.put k v

/-- The items under a key to which others are appended: a single value counts as a list of one, null
as an empty list. -/
def itemsOf : Option Json → List Json
  | none => []
  | some (.arr items) => items
  | some .null => []
  | some v => [v]

/-- **Appends to the list under a key.** -/
def append (p : Params) (k : String) (items : List Json) : Params :=
  p.modify k fun old => .arr (itemsOf old ++ items)

/-- Writes every member of a mapping. -/
def putAll (p : Params) (members : List (String × Json)) : Params :=
  members.foldl (fun p e => p.put e.1 e.2) p

/-- The parameters without a key. -/
def erase (p : Params) (k : String) : Params := { p with entries := Assoc.erase k p.entries }

@[simp] theorem version_modify (p : Params) (k : String) (f : Option Json → Json) :
    (p.modify k f).version = p.version := by unfold modify; split <;> rfl

@[simp] theorem isGated_modify (p : Params) (j k : String) (f : Option Json → Json) :
    (p.modify k f).isGated j = p.isGated j := by unfold modify; split <;> rfl

theorem get?_modify_self {p : Params} {k : String} (h : p.isGated k = false)
    (f : Option Json → Json) : (p.modify k f).get? k = some (f (p.get? k)) := by
  have h' : (p.modify k f).isGated k = false := by rw [isGated_modify, h]
  unfold get?
  rw [h', h]
  simp [modify, h]

theorem get?_modify_of_ne {p : Params} {j k : String} (hjk : j ≠ k) (f : Option Json → Json) :
    (p.modify k f).get? j = p.get? j := by
  unfold get?
  rw [isGated_modify]
  by_cases h : p.isGated k = true
  · simp [modify, h]
  · simp [modify, h, Assoc.get?_insert_of_ne hjk]

theorem get?_put_self {p : Params} {k : String} (h : p.isGated k = false) (v : Json) :
    (p.put k v).get? k = some v := get?_modify_self h _

theorem get?_put_of_ne {p : Params} {j k : String} (hjk : j ≠ k) (v : Json) :
    (p.put k v).get? j = p.get? j := get?_modify_of_ne hjk _

end Params

end SearchCompiler
