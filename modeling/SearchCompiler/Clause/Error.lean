import SearchCompiler.Clause.Kind
import SearchCompiler.Json.Printer
import SearchCompiler.SortOrder
import SearchCompiler.Version

/-! # Errors of clauses -/

namespace SearchCompiler

/-- What is wrong with a document that is to become a clause. -/
inductive Malformation where
  | notAMapping (doc : Json)
  | emptyMapping
  | severalKeys (keys : List String)
  | parametersNoMapping (field : String)
  | unexpectedParameters (field : String) (doc : Json)
  | aggregationNoMapping (name : String)
  | sortOrder (e : SortOrder.ReadError)

def Malformation.message : Malformation → String
  | notAMapping doc => "expected a mapping, got " ++ doc.text
  | emptyMapping => "empty mapping"
  | severalKeys keys => "expected exactly one top-level key, got " ++ ", ".intercalate keys
  | parametersNoMapping field => s!"parameters of '{field}' must be a mapping"
  | unexpectedParameters field doc => s!"unexpected parameters for '{field}': " ++ doc.text
  | aggregationNoMapping name => s!"aggregation '{name}' must be a mapping"
  | sortOrder e => e.message

/-- What a clause cannot do without. -/
inductive Requirement where
  | fieldName
  | value
  | valueList
  deriving DecidableEq, Repr

def Requirement.text : Requirement → String
  | fieldName => "field name"
  | value => "value"
  | valueList => "field with a value list"

/-- **Errors of clauses.** -/
inductive ClauseError where
  | version (e : VersionError)
  /-- A document of this kind of clause, or of any clause, is malformed. -/
  | malformed (kind : Option ClauseKind) (fault : Malformation)
  | unknownClause (name : String)
  | missing (kind : ClauseKind) (what : Requirement)
  | unknownBucket (name : String)

def ClauseError.message : ClauseError → String
  | version e => e.message
  | malformed none fault => "Malformed clause spec: " ++ fault.message
  | malformed (some kind) fault =>
    "Malformed clause spec: " ++ kind.label ++ ": " ++ fault.message
  | unknownClause name => s!"Unknown clause kind: {name}"
  | missing kind what => "Clause '" ++ kind.label ++ "' requires a " ++ what.text
  | unknownBucket name => s!"No aggregation bucket named '{name}'"

/-- Reads the name of a kind of clause. -/
def ClauseKind.read (s : String) : Except ClauseError ClauseKind :=
  match read? s with
  | some k => .ok k
  | none => .error (.unknownClause s)

/-- What keeps a document from being a mapping with a single member. -/
def Json.entryFault : Json → Malformation
  | .obj [] => .emptyMapping
  | .obj fields => .severalKeys (Assoc.keys fields)
  | doc => .notAMapping doc

/-- The only member of a mapping. -/
def Json.soleEntry : Json → Except Malformation (String × Json)
  | .obj [e] => .ok e
  | doc => .error doc.entryFault

end SearchCompiler
