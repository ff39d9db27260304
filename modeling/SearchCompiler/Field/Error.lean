import SearchCompiler.Field.Basic

/-! # Errors of fields -/

namespace SearchCompiler

/-- Why a field refuses a value. -/
inductive Rejection where
  | notAnInteger
  | outOfIntegerRange
  | notANumber
  | notATruthValue
  | outOfEpochRange
  | unknownMomentForm
  | notAMoment
  /-- The clocks of the zone never showed this time. -/
  | skippedTime (zone : String)
  | notAMapping
  | textOfNoMapping
  /-- Text that is not JSON. The message has the fixed text `invalid JSON` in place of what the
  reader of JSON says of it. -/
  | invalidJson
  deriving DecidableEq, Repr

def Rejection.message : Rejection → String
  | notAnInteger => "not an integer"
  | outOfIntegerRange => "out of integer range"
  | notANumber => "not a number"
  | notATruthValue => "expected 'true' or 'false'"
  | outOfEpochRange => "epoch milliseconds out of range"
  | unknownMomentForm => "unrecognized date/time format"
  | notAMoment => "expected a date, date string or epoch milliseconds"
  | skippedTime zone => "local time does not exist in " ++ zone
  | notAMapping => "expected a mapping or a JSON object string"
  | textOfNoMapping => "JSON text is not an object"
  | invalidJson => "invalid JSON"

/-- **Errors of fields, schemas and records.** -/
inductive FieldError where
  /-- A field of a kind refuses a value. -/
  | invalid (field kind : String) (value : Value) (reason : Rejection)
  | tooManyAttributes (field : String) (count : Nat)
  | unknownField (name : String)
  | missingRequired (name : String)

/-- The greatest number of attributes of a record. -/
def maxAttributes : Nat := 1000

def FieldError.message : FieldError → String
  | invalid field kind value reason =>
    "field '" ++ field ++ "' expects " ++ kind ++ ", got " ++ value.typeName ++ " '" ++
      value.text ++ "': " ++ reason.message
  | tooManyAttributes field count =>
    s!"composite field '{field}' received {count} attributes, limit is {maxAttributes}"
  | unknownField name => s!"unknown field: {name}"
  | missingRequired name => s!"required field '{name}' has no value"

end SearchCompiler
