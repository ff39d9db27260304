import SearchCompiler.Text.Case.Table

/-! # Lower case

Two lower-case maps: `asciiLower` changes the letters A to Z only, `lower` is the full mapping of
Unicode. The full mapping depends on context in one place, the capital sigma, which is written in
its final form at the end of a word: after a cased letter and not before one, case-ignorable
characters being passed over on both sides. One letter, the dotted capital I, becomes two. -/

namespace SearchCompiler.Text

/-- The letters A to Z in lower case, all else unchanged. -/
def asciiLower (s : String) : String := String.ofList (s.toList.map Char.toLower)

namespace Case

/-- Membership of a character in a list of ranges. -/
def inRanges (rs : List (Nat × Nat)) (c : Char) : Bool :=
  rs.any fun r => r.1 ≤ c.toNat && c.toNat ≤ r.2

def isCased (c : Char) : Bool := inRanges casedRanges c

def isIgnorable (c : Char) : Bool := inRanges ignorableRanges c

/-- Does a text, read from here on, meet a cased letter before any other one that counts? -/
def meetsCased (cs : List Char) : Bool :=
  match cs.dropWhile isIgnorable with
  | c :: _ => isCased c
  | [] => false

/-- The lower-case form of one character, out of context. -/
def lowerChar (c : Char) : List Char :=
  if c.toNat = 0x130 then ['i', Char.ofNat 0x307]
  else
    match lowerRuns.find? fun (first, last, step, _) =>
        first ≤ c.toNat && c.toNat ≤ last && (c.toNat - first) % step == 0 with
    | some (_, _, _, shift) => [Char.ofNat (c.toNat + shift).toNat]
    | none => [c]

/-- Lower case of a text, given the characters before it in reverse order. -/
def lowerFrom : List Char → List Char → List Char
  | _, [] => []
  | before, c :: rest =>
    let form :=
      if c.toNat = 0x3A3 then
        if meetsCased before && !meetsCased rest then [Char.ofNat 0x3C2] else [Char.ofNat 0x3C3]
      else lowerChar c
    form ++ lowerFrom (c :: before) rest

end Case

/-- **Full lower case.** -/
def lower (s : String) : String := String.ofList (Case.lowerFrom [] s.toList)

end SearchCompiler.Text
