import SearchCompiler.Clause.Params

/-! # Highlighting

The options for marking up the places of a hit that were found. -/

namespace SearchCompiler

/-- **Highlighting options.** -/
structure Highlight where
  params : Params

namespace Highlight

def new (v : Version) : Except ClauseError Highlight := return ⟨← Params.new v []⟩

/-- **The document of the options.** -/
def document (h : Highlight) : Json := h.params.toJson

def withPreTags (h : Highlight) (tags : List String) : Highlight :=
  ⟨h.params.append "pre_tags" (tags.map .str)⟩

def withPostTags (h : Highlight) (tags : List String) : Highlight :=
  ⟨h.params.append "post_tags" (tags.map .str)⟩

/-- Marks up a field, with options of its own. -/
def withField (h : Highlight) (field : String) (options : Json) : Highlight :=
  ⟨h.params.modify "fields" fun old => (old.getD (.obj [])).setField field options⟩

def withOrder (h : Highlight) (s : String) : Highlight := ⟨h.params.put "order" (.str s)⟩

def withFragmentSize (h : Highlight) (n : Nat) : Highlight :=
  ⟨h.params.put "fragment_size" (.ofNat n)⟩

def withNumberOfFragments (h : Highlight) (n : Nat) : Highlight :=
  ⟨h.params.put "number_of_fragments" (.ofNat n)⟩

def preTags (h : Highlight) : List String := (h.params.list "pre_tags").filterMap Json.str?

def postTags (h : Highlight) : List String := (h.params.list "post_tags").filterMap Json.str?

/-- The fields that are marked up. -/
def fields (h : Highlight) : List String := ((h.params.get? "fields").getD .null).fields.keys

/-- **Rebuilds the options** from their document. -/
def ofBody (body : Json) (v : Version) : Except ClauseError Highlight :=
  match body with
  | .obj members => do
    let h ← new v
    return ⟨h.params.putAll members⟩
  | body => .error (.malformed (some .highlight) (.notAMapping body))

end Highlight

end SearchCompiler
