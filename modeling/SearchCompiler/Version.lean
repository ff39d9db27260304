import SearchCompiler.Decimal.Layout
import SearchCompiler.Numeral

/-! # Backend versions

The declared version of the search backend: a major and a minor number, patch levels not counting.
Documents are written for versions from 5.0 up to, but not including, 8.0. A gate is a key of a
document that exists only from some major version on. -/

namespace SearchCompiler

/-- **A version of the backend.** -/
structure Version where
  major : Nat
  minor : Nat
  deriving DecidableEq, Repr

/-- Why something is no version to write documents for. -/
inductive VersionError where
  | unsupported (v : Version)
  | malformed (text : String)
  /-- A number that is negative or not finite. -/
  | notAVersion (x : Float)

namespace Version

/-- The version that is assumed where none is declared. -/
def standard : Version := ⟨5, 1⟩

instance : Inhabited Version := ⟨standard⟩

def text (v : Version) : String := s!"{v.major}.{v.minor}"

/-- Can documents be written for this version? -/
def isSupported (v : Version) : Bool := 5 ≤ v.major && v.major < 8

/-- The version itself, if it is supported. -/
def ensureSupported (v : Version) : Except VersionError Version :=
  if v.isSupported then .ok v else .error (.unsupported v)

/-- The major number and the minor number of a dotted text. What follows a second dot is a patch
level and is passed over; without a dot the minor number is zero. -/
def components (cs : List Char) : List Char × List Char :=
  match Text.splitOnce? '.' cs with
  | none => (cs, ['0'])
  | some (major, rest) => (major, rest.takeWhile (· != '.'))

/-- **Reads a version** such as `6`, `6.2` or `6.8.23`. -/
def read (s : String) : Except VersionError Version :=
  let cs := Text.trimChars s.toList
  let (major, minor) := components cs
  match Numeral.readUInt16? major, Numeral.readUInt16? minor with
  | some major, some minor => .ok ⟨major, minor⟩
  | _, _ => .error (.malformed (String.ofList cs))

/-- The version a number stands for, digit by digit: 6.2 is the version `6.2`. -/
def ofFloat (x : Float) : Except VersionError Version :=
  if Decimal.isFinite x && !decide (x < 0) then read (Decimal.Layout.plain.render x)
  else .error (.notAVersion x)

end Version

def VersionError.message : VersionError → String
  | unsupported v =>
    s!"Unsupported backend version {v.text}: expected at least 5.0 and below 8.0"
  | malformed text => s!"Malformed clause spec: invalid version '{text}'"
  | notAVersion x => "Malformed clause spec: invalid version " ++ Decimal.Layout.plain.render x

/-- A key that exists from some major version on. -/
structure Gate where
  key : String
  since : Nat
  deriving DecidableEq, Repr

/-- Does the key exist in this version? -/
def Gate.admits (g : Gate) (v : Version) : Bool := g.since ≤ v.major

end SearchCompiler
