import SearchCompiler.Clause.Basic
import SearchCompiler.Text.Case

/-! # The registry of clauses

A registry says which names stand for which clauses. It makes an empty clause from a name, and it
rebuilds a clause from a document, whose only key is such a name. The clauses inside a boolean group
or a request are rebuilt with it, so that a malformed one is refused at any depth.

* `Registry.create`: the empty clause of a name.
* `Registry.fromDocument`: the clause of a document. -/

namespace SearchCompiler

/-- How the clauses of a name are made. -/
inductive Constructor where
  | builtin (kind : ClauseKind)
  /-- A function of the field, the body of the document and the version. -/
  | custom (make : Option String → Option Json → Version → Except ClauseError Clause)

/-- **Names of clauses**, in lower case. -/
structure Registry where
  constructors : Assoc Constructor

namespace Registry

def empty : Registry := ⟨[]⟩

/-- Gives a name, in any case, to a constructor. -/
def register (r : Registry) (name : String) (c : Constructor) : Registry :=
  ⟨r.constructors.insert (Text.lower name) c⟩

/-- The names of the built-in clauses; a request has two. -/
def builtinNames : List (String × ClauseKind) :=
  ClauseKind.all.map (fun k => (k.name, k)) ++ [("request", .request)]

/-- **The registry of the built-in clauses.** -/
def builtin : Registry :=
  builtinNames.foldl (fun r e => r.register e.1 (.builtin e.2)) empty

instance : Inhabited Registry := ⟨builtin⟩

/-- The constructor of a name in any case. -/
def find? (r : Registry) (name : String) : Option Constructor :=
  r.constructors.get? (Text.lower name)

def contains (r : Registry) (name : String) : Bool := (r.find? name).isSome

def names (r : Registry) : List String := r.constructors.keys

/-- A field that has to be given. -/
def givenField (k : ClauseKind) : Option String → Except ClauseError String
  | some field => .ok field
  | none => .error (.missing k .fieldName)

/-- An empty clause of a built-in kind. -/
def emptyClause (k : ClauseKind) (field : Option String) (v : Version) :
    Except ClauseError Clause := do
  match k with
  | .bool => return .bool (← BoolGroup.new v)
  | .term => return .term (← FieldClause.new .term (← givenField k field) v)
  | .terms => return .terms (← Terms.new (← givenField k field) v)
  | .fullText => return .fullText (← FieldClause.new .fullText (← givenField k field) v)
  | .range => return .range (← FieldClause.new .range (← givenField k field) v)
  | .sort => return .sort (← FieldClause.new .sort (← givenField k field) v)
  | .aggs => return .aggs (← Aggs.new v)
  | .highlight => return .highlight (← Highlight.new v)
  | .request => return .request (← Request.new v)

/-- **The empty clause of a name.** -/
def create (r : Registry) (name : String) (field : Option String) (v : Version) :
    Except ClauseError Clause :=
  match r.find? name with
  | none => .error (.unknownClause name)
  | some (.custom make) => make field none v
  | some (.builtin k) => emptyClause k field v

/-- The sort keys of a request: one, or a list of them. -/
def sortKeys (doc : Json) (v : Version) : Except ClauseError (List SortKey) :=
  match doc with
  | .arr items => items.mapM fun item => SortKey.ofDocument item v
  | item => return [← SortKey.ofDocument item v]

/-- The columns that a request selects by a text or a list of texts. -/
def sourceColumns? : Json → Option (List String)
  | .arr items => some (Json.arr items).texts
  | .str column => some [column]
  | _ => none

/-- Takes a member of a document, other than the query, into a request. -/
def takeMember (request : Request) (key : String) (value : Json) :
    Except ClauseError Request := do
  let v := request.version
  match key with
  | "sort" => return request.withSorts (← sortKeys value v)
  | "_source" =>
    match sourceColumns? value with
    | some columns => return request.withSource columns
    | none => return request.put key value
  | "aggs" | "aggregations" => return request.withAggs (← Aggs.ofBody value v)
  | "highlight" => return request.withHighlight (← Highlight.ofBody value v) true
  | key => return request.put key value

mutual

/-- **The clause of a document.** -/
def fromDocument (r : Registry) (v : Version) : Json → Except ClauseError Clause
  | .obj [(name, body)] =>
    match r.find? name with
    | none => .error (.unknownClause name)
    | some (.custom make) => make none (some body) v
    | some (.builtin .bool) => do return .bool (← groupOfBody r v body)
    | some (.builtin .term) => do return .term (← Term.ofBody body v)
    | some (.builtin .terms) => do return .terms (← Terms.ofBody body v)
    | some (.builtin .fullText) => do return .fullText (← FullText.ofBody body v)
    | some (.builtin .range) => do return .range (← Range.ofBody body v)
    | some (.builtin .sort) => do return .sort (← SortKey.ofDocument body v)
    | some (.builtin .aggs) => do return .aggs (← Aggs.ofBody body v)
    | some (.builtin .highlight) => do return .highlight (← Highlight.ofBody body v)
    | some (.builtin .request) => do return .request (← requestOfBody r v body)
  | doc => .error (.malformed none doc.entryFault)

/-- Rebuilds a boolean group from the body of its document. -/
def groupOfBody (r : Registry) (v : Version) : Json → Except ClauseError BoolGroup
  | .obj members => do fillGroup r v (← BoolGroup.new v) members
  | body => .error (.malformed (some .bool) (.notAMapping body))

/-- Takes the members of a document into a group. A list of clauses may be a single clause, which is
then kept as such. -/
def fillGroup (r : Registry) (v : Version) (g : BoolGroup) :
    List (String × Json) → Except ClauseError BoolGroup
  | [] => .ok g
  | (key, value) :: rest =>
    match Occur.ofKey? key, value with
    | some o, .arr items => do fillGroup r v (g.extend o (← documents r v items)) rest
    | some _, value => do fillGroup r v (g.put key (← fromDocument r v value).document) rest
    | none, value => fillGroup r v (g.put key value) rest

/-- The documents of rebuilt clauses. -/
def documents (r : Registry) (v : Version) : List Json → Except ClauseError (List Json)
  | [] => .ok []
  | doc :: rest => do
    let c ← fromDocument r v doc
    return c.document :: (← documents r v rest)

/-- Rebuilds a request from its document. -/
def requestOfBody (r : Registry) (v : Version) : Json → Except ClauseError Request
  | .obj members => do fillRequest r v (← Request.new v) members
  | body => .error (.malformed (some .request) (.notAMapping body))

/-- Takes the members of a document into a request. -/
def fillRequest (r : Registry) (v : Version) (request : Request) :
    List (String × Json) → Except ClauseError Request
  | [] => .ok request
  | (key, value) :: rest => do
    if key = "query" then
      fillRequest r v (request.withQuery (← fromDocument r v value).document true) rest
    else fillRequest r v (← takeMember request key value) rest

end

/-- What a clause can be made of. -/
inductive Spec where
  | name (name : String) (field : Option String)
  | document (doc : Json)
  | built (c : Clause)

/-- **Makes a clause** of a name or a document; a clause is returned as it is. -/
def resolve (r : Registry) (s : Spec) (v : Version) : Except ClauseError Clause :=
  match s with
  | .name name field => r.create name field v
  | .document doc => r.fromDocument v doc
  | .built c => .ok c

end Registry

end SearchCompiler
