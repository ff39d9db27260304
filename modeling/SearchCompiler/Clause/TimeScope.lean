import SearchCompiler.Clause.Field
import SearchCompiler.Time.Bound

/-! # Time scopes

The window of days that is left when every readable bound on a field of time has been taken into
account. A bound that is no text, or no date, does not count. -/

namespace SearchCompiler

/-- **A window of days**, both ends included, with the texts its ends were read from. -/
structure TimeScope where
  start : Date
  stop : Date
  startText : Option String
  stopText : Option String

namespace TimeScope

/-- The start of an unbounded window. -/
def earliest : Date := ⟨Calendar.dayNumber ⟨1001, 1, 1⟩, by decide⟩

/-- The end of an unbounded window. -/
def latest : Date := ⟨Calendar.dayNumber ⟨9999, 1, 1⟩, by decide⟩

def unbounded : TimeScope := ⟨earliest, latest, none, none⟩

instance : Inhabited TimeScope := ⟨unbounded⟩

/-- Narrows a window by one bound; of equal dates the earlier text stays. -/
def narrowBound (scope : TimeScope) (b : Bound) (date : Date) (text : String) : TimeScope :=
  if b.isLower then
    if scope.start < date then { scope with start := date, startText := some text } else scope
  else
    if date < scope.stop then { scope with stop := date, stopText := some text } else scope

/-- The date and the text of a bound among the parameters of a range. -/
def boundOf? (today : Date) (params : Assoc Json) (b : Bound) : Option (Date × String) := do
  let text ← (← Assoc.get? b.key params).str?
  return (← today.ofBound? text, text)

/-- **Narrows a window by the parameters of a range.** -/
def narrow (today : Date) (scope : TimeScope) (params : Assoc Json) : TimeScope :=
  Bound.all.foldl
    (fun scope b =>
      match boundOf? today params b with
      | some (date, text) => scope.narrowBound b date text
      | none => scope)
    scope

/-- Is there no day in the window? -/
def isEmpty (scope : TimeScope) : Bool := decide (scope.stop < scope.start)

end TimeScope

end SearchCompiler
