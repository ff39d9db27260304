import SearchCompiler.Json.Members
import SearchCompiler.Text.Case
import SearchCompiler.Version

/-! # Configuration

What a compilation depends on besides its statement: the version of the backend, and whether the
query is put into a filter, so that it does not count towards the score. A configuration is read
from a JSON text or from named settings. -/

namespace SearchCompiler

/-- **A configuration.** -/
structure Config where
  version : Version := .standard
  filterContext : Bool := true
  deriving DecidableEq, Repr

/-- Why there is no configuration. -/
inductive ConfigError where
  | version (e : VersionError)
  | malformedText
  | notAFlag (text : String)

namespace Config

instance : Inhabited Config := ⟨{}⟩

/-- The name of the setting that holds the version. -/
def versionSetting : String := "QUERY_TARGET_VERSION"

/-- The name of the setting that holds the filter flag. -/
def filterSetting : String := "QUERY_FILTER_CONTEXT"

/-- The configuration itself, if its version is supported. -/
def ensureSupported (c : Config) : Except ConfigError Config :=
  match c.version.ensureSupported with
  | .ok _ => .ok c
  | .error e => .error (.version e)

/-- A version given as text or as a number. -/
def versionOf? : Json → Option Version
  | .str s => (Version.read s).toOption
  | .num n => (Version.ofFloat n.toFloat).toOption
  | _ => none

/-- Takes a member of a JSON text into a configuration. -/
def takeMember? (c : Config) (key : String) (value : Json) : Option Config :=
  match key with
  | "version" => (versionOf? value).map fun v => { c with version := v }
  | "filter_context" => value.bool?.map fun b => { c with filterContext := b }
  | _ => some c

/-- The keys of a configuration in text, in their order in a list. -/
def keys : List String := ["version", "filter_context"]

/-- Does every key of a configuration occur at most once? -/
def isUnambiguous (members : List (String × Json)) : Bool :=
  keys.all fun k => (members.filter fun e => e.1 == k).length ≤ 1

/-- The members of a configuration in text: an object with no key of a configuration twice, in which
other keys do not count, or a list that gives the values in order. Values may be left out. -/
def members? (s : String) : Option (List (String × Json)) :=
  match Json.readMembers? keys.contains s with
  | some members => if isUnambiguous members then some members else none
  | none =>
    match Json.read? s with
    | some (.arr items) => if items.length ≤ keys.length then some (keys.zip items) else none
    | _ => none

/-- **Reads a configuration** from a JSON text. -/
def ofText (s : String) : Except ConfigError Config :=
  match (members? s).bind fun members =>
      members.foldlM (fun c e => takeMember? c e.1 e.2) {} with
  | some c => c.ensureSupported
  | none => .error .malformedText

/-- The truth value of a setting. -/
def flag? (s : String) : Option Bool :=
  match Text.asciiLower (Text.trim s) with
  | "1" | "true" | "yes" | "on" => some true
  | "0" | "false" | "no" | "off" => some false
  | _ => none

/-- **Reads a configuration** from named settings; what is not set is left as it is. -/
def ofSettings (setting : String → Option String) : Except ConfigError Config := do
  let version ← match setting versionSetting with
    | some s => (Version.read s).mapError .version
    | none => .ok .standard
  let filterContext ← match setting filterSetting with
    | some s =>
      match flag? s with
      | some b => .ok b
      | none => .error (.notAFlag s)
    | none => .ok true
  ensureSupported { version := version, filterContext := filterContext }

end Config

def ConfigError.message : ConfigError → String
  | version e => e.message
  | malformedText => "Malformed clause spec: compiler config"
  | notAFlag text =>
    s!"Malformed clause spec: {Config.filterSetting}: expected a boolean, got '{text}'"

end SearchCompiler
