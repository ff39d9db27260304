import SearchCompiler.Text.Blank
import SearchCompiler.Text.Case

/-! # Sort directions -/

namespace SearchCompiler

/-- **A sort direction.** -/
inductive SortOrder where
  | asc
  | desc
  deriving DecidableEq, Repr

namespace SortOrder

instance : Inhabited SortOrder := ⟨asc⟩

def text : SortOrder → String
  | asc => "asc"
  | desc => "desc"

/-- A text that is no direction, as it was compared. -/
structure ReadError where
  word : String
  deriving DecidableEq, Repr

def ReadError.message (e : ReadError) : String := s!"unknown sort order '{e.word}'"

/-- Reads a direction, in any case and with blanks around it. -/
def read (s : String) : Except ReadError SortOrder :=
  let word := Text.asciiLower (Text.trim s)
  if word = "asc" then .ok asc
  else if word = "desc" then .ok desc
  else .error ⟨word⟩

end SortOrder

end SearchCompiler
