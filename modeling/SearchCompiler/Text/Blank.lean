/-! # Blank characters and trimming

The characters of the Unicode property White_Space, and texts without them at either end. -/

namespace SearchCompiler.Text

/-- A character of the property White_Space. -/
def isBlank (c : Char) : Bool :=
  let n := c.toNat
  (9 ≤ n && n ≤ 13) || n == 0x20 || n == 0x85 || n == 0xA0 || n == 0x1680 ||
    (0x2000 ≤ n && n ≤ 0x200A) || n == 0x2028 || n == 0x2029 || n == 0x202F || n == 0x205F ||
    n == 0x3000

/-- A list of characters without the blanks at its end. -/
def trimEnd (cs : List Char) : List Char := (cs.reverse.dropWhile isBlank).reverse

/-- A list of characters without the blanks at either end. -/
def trimChars (cs : List Char) : List Char := trimEnd (cs.dropWhile isBlank)

/-- **A text without the blanks at either end.** -/
def trim (s : String) : String := String.ofList (trimChars s.toList)

@[simp] theorem toList_trim (s : String) : (trim s).toList = trimChars s.toList := by
  simp [trim]

/-- The pieces of a text between its blanks, none of them empty. -/
def words (cs : List Char) : List (List Char) :=
  (go cs).filter fun w => !w.isEmpty
where
  go : List Char → List (List Char)
    | [] => [[]]
    | c :: rest =>
      match go rest with
      | [] => [[c]]
      | w :: ws => if isBlank c then [] :: w :: ws else (c :: w) :: ws

/-- The pieces of a text between the characters of a class, empty ones included. -/
def splitAtAny (p : Char → Bool) : List Char → List (List Char)
  | [] => [[]]
  | c :: rest =>
    if p c then [] :: splitAtAny p rest
    else
      match splitAtAny p rest with
      | [] => [[c]]
      | w :: ws => (c :: w) :: ws

/-- The text before the first occurrence of a character and the text after it. -/
def splitOnce? (sep : Char) : List Char → Option (List Char × List Char)
  | [] => none
  | c :: rest =>
    if c = sep then some ([], rest)
    else (splitOnce? sep rest).map fun p => (c :: p.1, p.2)

end SearchCompiler.Text
