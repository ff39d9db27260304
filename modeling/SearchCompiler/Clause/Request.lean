import SearchCompiler.Clause.Aggs
import SearchCompiler.Clause.Field
import SearchCompiler.Clause.Highlight

/-! # Search requests

The document that is sent to the backend: a query with its sort keys, selected columns, page and
aggregations. Three of its keys do not exist in older versions. -/

namespace SearchCompiler

/-- **A search request.** -/
structure Request where
  params : Params

namespace Request

/-- The keys that came with later versions. -/
def gates : List Gate :=
  [⟨"collapse", 6⟩, ⟨"track_total_hits", 7⟩, ⟨"seq_no_primary_term", 7⟩]

def new (v : Version) : Except ClauseError Request := return ⟨← Params.new v gates⟩

def version (r : Request) : Version := r.params.version

/-- **The document of a request.** -/
def document (r : Request) : Json := r.params.toJson

def isGated (r : Request) (key : String) : Bool := r.params.isGated key

/-! ### Writing -/

def put (r : Request) (key : String) (v : Json) : Request := ⟨r.params.put key v⟩

def putOnce (r : Request) (key : String) (v : Json) (overwrite : Bool) : Request :=
  ⟨r.params.putOnce key v overwrite⟩

def append (r : Request) (key : String) (items : List Json) : Request :=
  ⟨r.params.append key items⟩

def withQuery (r : Request) (query : Json) (overwrite : Bool) : Request :=
  r.putOnce "query" query overwrite

/-- Adds sort keys. -/
def withSorts (r : Request) (sorts : List SortKey) : Request :=
  r.append "sort" (sorts.map (·.document))

def withSort (r : Request) (sort : SortKey) : Request := r.withSorts [sort]

/-- The selection of columns with more columns at its end. What is no selection is replaced. -/
def sourceWith (columns : List String) (old : Option Json) : Json :=
  let source := old.getD (.obj [])
  let included := ((source.get? "includes").bind Json.arr?).getD []
  source.setField "includes" (.arr (included ++ columns.map .str))

/-- Adds columns to the selected ones. -/
def withSource (r : Request) (columns : List String) : Request :=
  ⟨r.params.modify "_source" (sourceWith columns)⟩

def withAggs (r : Request) (aggs : Aggs) : Request := r.put "aggs" aggs.document

def withSize (r : Request) (n : Nat) (overwrite : Bool) : Request :=
  r.putOnce "size" (.ofNat n) overwrite

/-- The number of hits to pass over. -/
def withOffset (r : Request) (n : Nat) (overwrite : Bool) : Request :=
  r.putOnce "from" (.ofNat n) overwrite

def clearOffset (r : Request) : Request := ⟨r.params.erase "from"⟩

def withHighlight (r : Request) (h : Highlight) (overwrite : Bool) : Request :=
  r.putOnce "highlight" h.document overwrite

def withExplain (r : Request) (b overwrite : Bool) : Request :=
  r.putOnce "explain" (.bool b) overwrite

/-- Asks for the versions of the hits. -/
def withVersionFlag (r : Request) (b overwrite : Bool) : Request :=
  r.putOnce "version" (.bool b) overwrite

/-- Adds to the sort values of the hit after which the page starts. -/
def withSearchAfter (r : Request) (values : List Json) : Request := r.append "search_after" values

def withStoredFields (r : Request) (fields : List String) : Request :=
  r.append "stored_fields" (fields.map .str)

def withDocvalueFields (r : Request) (fields : List String) : Request :=
  r.append "docvalue_fields" (fields.map .str)

def withCollapse (r : Request) (field : String) : Request :=
  r.put "collapse" (.single "field" (.str field))

def withTrackTotalHits (r : Request) (b : Bool) : Request := r.put "track_total_hits" (.bool b)

def withSeqNoPrimaryTerm (r : Request) (b : Bool) : Request :=
  r.put "seq_no_primary_term" (.bool b)

/-! ### Reading -/

def get? (r : Request) (key : String) : Option Json := r.params.get? key

def list (r : Request) (key : String) : List Json := r.params.list key

def flag? (r : Request) (key : String) : Option Bool := (r.get? key).bind Json.bool?

def query? (r : Request) : Option Json := r.get? "query"
def sort (r : Request) : List Json := r.list "sort"

/-- The selected columns. -/
def source (r : Request) : List String :=
  (((r.get? "_source").bind (Json.get? "includes")).getD .null).texts

def aggs? (r : Request) : Option Json := r.get? "aggs"
def size? (r : Request) : Option Nat := (r.get? "size").bind Json.nat?

/-- What stands for the number of hits to pass over. -/
def storedOffset? (r : Request) : Option Json := r.get? "from"

def offset? (r : Request) : Option Nat := r.storedOffset?.bind Json.nat?
def highlight? (r : Request) : Option Json := r.get? "highlight"
def explain? (r : Request) : Option Bool := r.flag? "explain"
def versionFlag? (r : Request) : Option Bool := r.flag? "version"
def searchAfter (r : Request) : List Json := r.list "search_after"
def storedFields (r : Request) : List Json := r.list "stored_fields"
def docvalueFields (r : Request) : List Json := r.list "docvalue_fields"
def collapse? (r : Request) : Option Json := r.get? "collapse"
def trackTotalHits? (r : Request) : Option Json := r.get? "track_total_hits"
def seqNoPrimaryTerm? (r : Request) : Option Bool := r.flag? "seq_no_primary_term"

end Request

end SearchCompiler
