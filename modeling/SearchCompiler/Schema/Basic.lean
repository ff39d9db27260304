import SearchCompiler.Field.Validate

/-! # Schemas

The declared fields of one kind of document, in order, with the index that holds the documents.
Declaring a name again replaces the field in its place. A schema that extends a parent puts the
fields it does not declare itself in front of its own.

* `Schema.lookup?`: the field at a dotted path. -/

namespace SearchCompiler

/-- **The declared fields of a kind of document.** -/
structure Schema where
  name : String
  index : String
  docType : String
  fields : List Field

namespace Schema

/-- A schema without fields; its index has the name in lower case. -/
def new (name : String) : Schema :=
  { name := name, index := Text.lower name, docType := "_doc", fields := [] }

def withIndex (s : Schema) (index : String) : Schema := { s with index := index }

def withDocType (s : Schema) (docType : String) : Schema := { s with docType := docType }

/-- The first field of a name. -/
def find? (n : String) (fs : List Field) : Option Field := fs.find? fun f => f.name == some n

/-- Replaces the first field of a name, or adds a field at the end. -/
def place (n : String) (f : Field) : List Field → List Field
  | [] => [f]
  | g :: rest => if g.name = some n then f :: rest else g :: place n f rest

/-- **Declares a field.** -/
def declare (s : Schema) (n : String) (f : Field) : Schema :=
  { s with fields := place n (f.named n) s.fields }

/-- **Inherits the fields of a parent** that are not declared here. -/
def extend (s parent : Schema) : Schema :=
  let inherited := parent.fields.filter fun f => !s.fields.any fun own => own.name == f.name
  { s with fields := inherited ++ s.fields }

/-- The segments of a dotted path. -/
def segments (path : String) : List String :=
  (Text.splitAtAny (· == '.') path.toList).map String.ofList

/-- **The field at a dotted path:** the field of the first segment, then children by key. -/
def lookup? (s : Schema) (path : String) : Option Field :=
  match segments path with
  | [] => none
  | head :: keys => (find? head s.fields).bind fun f => f.descend? keys

end Schema

end SearchCompiler
