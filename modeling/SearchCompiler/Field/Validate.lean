import SearchCompiler.Field.Error
import SearchCompiler.Json.Reader
import SearchCompiler.Text.Case
import SearchCompiler.Time.Moment

/-! # Validation

A field normalizes the values it accepts: integers to 64-bit integers, numbers to floats, truth
values to the words `true` and `false`, everything to text if the field holds text, moments to their
UTC form, and mappings to mappings of declared keys. Each kind has a function of its own that gives
the normalized value or the reason of refusal; `Field.validate` adds which field it was.

In a mapping each declared key is looked up in order of declaration. A value under it, unless null,
is validated by the child; otherwise the default of the child stands in. Other keys are dropped. -/

namespace SearchCompiler

namespace Validate

/-- What a validator gives. -/
abbrev Outcome := Except Rejection Value

/-- A value read from text or JSON, or a reason why there is none. -/
def ofOption (reason : Rejection) : Option Value → Outcome
  | some v => .ok v
  | none => .error reason

/-- The integer part of a float. -/
def truncated (x : Float) : Outcome :=
  ofOption .outOfIntegerRange
    (((Decimal.integerPart? x).bind fun p => toInt64? p.1).map .int)

/-- An integer in text. -/
def integerText (s : String) : Outcome :=
  ofOption .notAnInteger ((Numeral.readInt64? (Text.trimChars s.toList)).map .int)

/-- **Integers.** Fractions are cut off, truth values count as 0 and 1, text is read. -/
def integer : Value → Outcome
  | .int n => .ok (.int n)
  | .float x => if Decimal.isFinite x then truncated x else .error .notAnInteger
  | .bool b => .ok (.int (if b then 1 else 0))
  | .str s => integerText s
  | .json (.num n) =>
    match n.toInt64? with
    | some i => .ok (.int i)
    | none => truncated n.toFloat
  | .json (.str s) => integerText s
  | _ => .error .notAnInteger

/-- A float in text. -/
def floatText (s : String) : Outcome :=
  ofOption .notANumber ((Decimal.readFloat? (Text.trimChars s.toList)).map .float)

/-- **Floats.** -/
def float : Value → Outcome
  | .int n => .ok (.float (Float.ofInt n.toInt))
  | .float x => .ok (.float x)
  | .bool b => .ok (.float (if b then 1 else 0))
  | .str s => floatText s
  | .json (.num n) => .ok (.float n.toFloat)
  | .json (.str s) => floatText s
  | _ => .error .notANumber

/-- The word of a truth value. -/
def truthWord (b : Bool) : Value := .str (if b then "true" else "false")

/-- A truth value in text, in any case. -/
def booleanText (s : String) : Outcome :=
  let word := Text.asciiLower (Text.trim s)
  if word = "true" then .ok (truthWord true)
  else if word = "false" then .ok (truthWord false)
  else .error .notATruthValue

/-- **Truth values.** Text has to be one of the words; anything else counts by its truth. -/
def boolean : Value → Outcome
  | .bool b => .ok (truthWord b)
  | .json (.bool b) => .ok (truthWord b)
  | .str s => booleanText s
  | .json (.str s) => booleanText s
  | v => .ok (truthWord v.isTruthy)

/-- A moment in its UTC form. -/
def moment (t : DateTime) : Value := .str t.utcText

/-- A wall-clock time, placed in a zone. -/
def placed (zone : Zone) (t : DateTime) : Outcome :=
  ofOption (.skippedTime zone.text) ((zone.localize? t).map moment)

/-- Milliseconds since 1970-01-01. -/
def millis (n : Int64) : Outcome :=
  ofOption .outOfEpochRange ((DateTime.ofMillis? n.toInt).map moment)

/-- A moment in text. -/
def momentText (zone : Zone) (s : String) : Outcome :=
  match Moment.read? s with
  | some (.aware t) => .ok (moment t.utc)
  | some (.wall t) => placed zone t
  | none => .error .unknownMomentForm

/-- **Moments.** -/
def timestamp (zone : Zone) : Value → Outcome
  | .int n => millis n
  | .json (.num n) =>
    match n.toInt64? with
    | some i => millis i
    | none => .error .notAMoment
  | .timestamp s => .ok (moment s.utc)
  | .wallTime t => placed zone t
  | .date d => placed zone (.midnight d)
  | .str s => momentText zone s
  | .json (.str s) => momentText zone s
  | _ => .error .notAMoment

/-- The members of a mapping in text. -/
def mappingText (s : String) : Except Rejection (Assoc Json) :=
  match Json.read? s with
  | some (.obj fields) => .ok fields
  | some _ => .error .textOfNoMapping
  | none => .error .invalidJson

/-- The members of a mapping. -/
def mapping : Value → Except Rejection (Assoc Json)
  | .json (.obj fields) => .ok fields
  | .json (.str s) => mappingText s
  | .str s => mappingText s
  | _ => .error .notAMapping

/-- Adds to an outcome which field refused which value. -/
def blame {α : Type} (label kind : String) (v : Value) : Except Rejection α → Except FieldError α
  | .ok a => .ok a
  | .error reason => .error (.invalid label kind v reason)

end Validate

open Validate

mutual

/-- **The normalized form of a value**, or why the field refuses it. -/
def Field.validate : Field → Value → Except FieldError Value
  | ⟨name, kind, _, _, _⟩, v => Kind.validate (name.getD "<unnamed>") kind v

/-- Validation by the kind of a field. -/
def Kind.validate (label : String) : Kind Field → Value → Except FieldError Value
  | .integer, v => blame label "integer" v (Validate.integer v)
  | .float, v => blame label "float" v (Validate.float v)
  | .boolean, v => blame label "boolean" v (Validate.boolean v)
  | .text, v => .ok (.str v.text)
  | .timestamp zone, v => blame label "timestamp" v (Validate.timestamp zone v)
  | .object children, v => do
    let source ← blame label "object" v (mapping v)
    let normalized ← validateChildren source children []
    return .json (.obj normalized)

/-- The normalized members of a mapping, added to those of the children before. -/
def validateChildren (source : Assoc Json) :
    List (String × Field) → Assoc Json → Except FieldError (Assoc Json)
  | [], done => .ok done
  | (key, child) :: rest, done =>
    match (Assoc.get? key source).filter fun j => !j.isNull with
    | some raw => do
      let checked ← child.validate (.json raw)
      validateChildren source rest (Assoc.insert key checked.toJson done)
    | none =>
      match child with
      | ⟨_, _, _, _, some d⟩ => validateChildren source rest (Assoc.insert key d.toJson done)
      | ⟨_, _, _, _, none⟩ => validateChildren source rest done

end

namespace Field

/-- A field with a default, which is normalized like any other value. -/
def withDefault (f : Field) (v : Value) : Except FieldError Field := do
  let d ← f.validate v
  return { f with default := some d }

/-- **Validation of a whole record**, of which the attributes are counted first. -/
def validateRecord (f : Field) (record : Json) : Except FieldError Value :=
  if maxAttributes < record.fields.length then
    .error (.tooManyAttributes f.label record.fields.length)
  else f.validate (.json record)

end Field

end SearchCompiler
