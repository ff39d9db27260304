import SearchCompiler.Json.Reader

/-! # Reading some members of an object

A reader that wants only some members of an object passes over the others. What is passed over has
to have the form of JSON and no more: a number may be too large for a float, a surrogate may stand
alone, and containers may be inside one another to any depth. -/

namespace SearchCompiler.Json

namespace Reader

/-- Passes over a number. -/
def skipNumber : Reader Unit := fun cs => do
  let (_, rest) ← wholePart? (if cs.head? = some '-' then cs.tail else cs)
  let (_, rest) ← fractionPart? rest
  let (_, rest) ← exponentPart? rest
  return ((), rest)

/-- Passes over what follows a backslash. -/
def skipEscape : Reader Unit
  | 'u' :: rest => (hexWord rest).map fun p => ((), p.2)
  | cs => (escapeSequence cs).map fun p => ((), p.2)

/-- Passes over the rest of a string after its opening quote. -/
def skipStringBody : Nat → Reader Unit
  | 0, _ => none
  | fuel + 1, cs =>
    match cs with
    | [] => none
    | '"' :: rest => some ((), rest)
    | '\\' :: rest => (skipEscape rest).bind fun p => skipStringBody fuel p.2
    | c :: rest => if c.toNat < 0x20 then none else skipStringBody fuel rest

/-- Passes over a quoted string. -/
def skipString (fuel : Nat) : Reader Unit
  | '"' :: rest => skipStringBody fuel rest
  | _ => none

/-- Passes over a key, a colon and a value. -/
def skipMember (fuel : Nat) (value : Reader Unit) : Reader Unit := fun cs => do
  let (_, rest) ← skipString fuel cs
  match skipSpace rest with
  | ':' :: rest => value (skipSpace rest)
  | _ => none

/-- **Passes over a value** with at most `depth` containers inside one another. -/
def skipValue (fuel : Nat) : Nat → Reader Unit
  | depth, cs =>
    match cs, depth with
    | '"' :: _, _ => skipString fuel cs
    | '[' :: rest, depth + 1 =>
      (container fuel (skipValue fuel depth) ']' rest).map fun p => ((), p.2)
    | '\x7b' :: rest, depth + 1 =>
      (container fuel (skipMember fuel (skipValue fuel depth)) '\x7d' rest).map fun p => ((), p.2)
    | 'n' :: _, _ => (keyword ['n', 'u', 'l', 'l'] .null cs).map fun p => ((), p.2)
    | 't' :: _, _ => (keyword ['t', 'r', 'u', 'e'] .null cs).map fun p => ((), p.2)
    | 'f' :: _, _ => (keyword ['f', 'a', 'l', 's', 'e'] .null cs).map fun p => ((), p.2)
    | cs, _ => skipNumber cs

/-- A member, or nothing if its key is not wanted. -/
def wantedMember (wanted : String → Bool) (fuel depth : Nat) : Reader (Option (String × Json)) :=
  fun cs => do
    let (k, rest) ← string fuel cs
    match skipSpace rest with
    | ':' :: rest =>
      if wanted k then
        let (v, rest) ← value fuel depth (skipSpace rest)
        return (some (k, v), rest)
      else
        let (_, rest) ← skipValue fuel fuel (skipSpace rest)
        return (none, rest)
    | _ => none

/-- The wanted members of an object, whose values have at most `depth` containers inside one
another. -/
def wantedMembers (wanted : String → Bool) (fuel depth : Nat) : Reader (List (String × Json))
  | '\x7b' :: rest =>
    (container fuel (wantedMember wanted fuel depth) '\x7d' rest).map fun p =>
      (p.1.filterMap id, p.2)
  | _ => none

end Reader

/-- **Reads the wanted members** of an object in a text as they are written, repeated keys
included. -/
def readMembers? (wanted : String → Bool) (s : String) : Option (List (String × Json)) :=
  let cs := s.toList
  Reader.whole? (Reader.wantedMembers wanted cs.length (Reader.maxDepth - 1)) cs

end SearchCompiler.Json
