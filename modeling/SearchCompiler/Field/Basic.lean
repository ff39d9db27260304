import SearchCompiler.Value.Basic
import SearchCompiler.Zone.Basic

/-! # Fields

A field declares the kind of value that a document holds under a name. A composite field has
children under keys of their own; naming it names them, each by the path that leads to it. A name
once given stays, but the name of a composite always reaches down to its children.

* `Field.named`: gives a field its name.
* `Field.child?`, `Field.descend?`: the child under a key, the descendant along a path of keys. -/

namespace SearchCompiler

/-- The kind of a field, over the type of its children. -/
inductive Kind (F : Type) where
  | integer
  | float
  | boolean
  | text
  /-- A moment; one that names no zone is placed in this one. -/
  | timestamp (zone : Zone)
  /-- A mapping with children under keys, in order of declaration. -/
  | object (children : List (String × F))

/-- **A field.** -/
structure Field where
  name : Option String
  kind : Kind Field
  multi : Bool := false
  required : Bool := false
  default : Option Value := none

/-- The name of a kind. -/
def Kind.name {F : Type} : Kind F → String
  | .integer => "integer"
  | .float => "float"
  | .boolean => "boolean"
  | .text => "text"
  | .timestamp _ => "timestamp"
  | .object _ => "object"

namespace Field

instance : Inhabited Field := ⟨{ name := none, kind := .text }⟩

/-- A field of some kind without a name. -/
def ofKind (kind : Kind Field) : Field := { name := none, kind := kind }

mutual

/-- Gives a field a name and its descendants the paths below it. -/
def rename (n : String) : Field → Field
  | ⟨_, kind, multi, required, default⟩ => ⟨some n, renameKind n kind, multi, required, default⟩

/-- Names the children of a kind. -/
def renameKind (n : String) : Kind Field → Kind Field
  | .integer => .integer
  | .float => .float
  | .boolean => .boolean
  | .text => .text
  | .timestamp zone => .timestamp zone
  | .object children => .object (renameChildren n children)

/-- Names the children in a list. -/
def renameChildren (n : String) : List (String × Field) → List (String × Field)
  | [] => []
  | (key, child) :: rest => (key, child.rename (n ++ "." ++ key)) :: renameChildren n rest

end

/-- **Names a field**, unless it has a name already. -/
def named (f : Field) (n : String) : Field :=
  match f.name with
  | some _ => f
  | none => f.rename n

/-- A field that accumulates values. -/
def asMulti (f : Field) : Field := { f with multi := true }

/-- A field that has to have a value. -/
def asRequired (f : Field) : Field := { f with required := true }

/-- The name as it is shown in messages. -/
def label (f : Field) : String := f.name.getD "<unnamed>"

/-- The children of a composite field; other fields have none. -/
def children (f : Field) : List (String × Field) :=
  match f.kind with
  | .object children => children
  | _ => []

/-- The first child under a key. -/
def child? (f : Field) (key : String) : Option Field := Assoc.get? key f.children

/-- The descendant along a path of keys. -/
def descend? (f : Field) : List String → Option Field
  | [] => some f
  | key :: path => (f.child? key).bind fun c => c.descend? path

theorem renameChildren_eq_map (n : String) (cs : List (String × Field)) :
    renameChildren n cs = cs.map fun c => (c.1, c.2.rename (n ++ "." ++ c.1)) := by
  induction cs with
  | nil => rfl
  | cons c rest ih => simp [renameChildren, ih]

@[simp] theorem name_rename (n : String) (f : Field) : (f.rename n).name = some n := by
  cases f; simp [rename]

end Field

end SearchCompiler
