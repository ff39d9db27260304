import Mathlib.Logic.Basic
import SearchCompiler.Zone.Basic

/-! # Reading a zone

The four bytes after a sign are cut in the middle, into hours and minutes, whatever characters they
are. If the middle is inside of a character, the cut fails; no other text makes reading fail but by
being no zone.

* `Zone.cutAt?_eq_some_iff`, `Zone.cutAt?_eq_none_iff`: cuts between characters.
* `Zone.CutsCharacter`: the texts that are cut inside of a character.
* `Zone.read_outcomes`: what reading a text comes to. -/

namespace SearchCompiler

theorem Text.splitOnce?_eq_none_iff {sep : Char} {cs : List Char} :
    splitOnce? sep cs = none ↔ sep ∉ cs := by
  induction cs with
  | nil => simp [splitOnce?]
  | cons c cs ih =>
    rw [splitOnce?]
    split
    · next h => simp [h]
    · next h => simp [ih, Ne.symm h]

namespace Zone

variable {regions : Regions} {n : Nat} {cs a b : List Char}

/-! ### Cutting after some bytes -/

theorem byteLength_cons (c : Char) (cs : List Char) :
    byteLength (c :: cs) = c.utf8Size + byteLength cs := rfl

theorem byteLength_eq_utf8ByteSize (s : String) : byteLength s.toList = s.utf8ByteSize := by
  obtain ⟨cs, rfl⟩ : ∃ cs, s = String.ofList cs := ⟨s.toList, String.ofList_toList.symm⟩
  rw [String.toList_ofList]
  induction cs with
  | nil => rfl
  | cons c cs ih =>
    rw [byteLength_cons, ih, String.ofList_cons, String.utf8ByteSize_append,
      String.utf8ByteSize_singleton]

/-- Some bytes are cut off character by character. -/
theorem cutAt?_cons (hn : 0 < n) (c : Char) (cs : List Char) : cutAt? n (c :: cs) =
    if c.utf8Size ≤ n then (cutAt? (n - c.utf8Size) cs).map fun p => (c :: p.1, p.2) else none := by
  obtain ⟨n, rfl⟩ := Nat.exists_eq_succ_of_ne_zero (Nat.ne_of_gt hn)
  rw [cutAt?]
  exact Nat.succ_ne_zero n

theorem cutAt?_append (a b : List Char) : cutAt? (byteLength a) (a ++ b) = some (a, b) := by
  induction a with
  | nil => cases b <;> rfl
  | cons c a ih =>
    have hpos : 0 < c.utf8Size + byteLength a := Nat.add_pos_left c.utf8Size_pos _
    rw [byteLength_cons, List.cons_append, cutAt?_cons hpos, if_pos (Nat.le_add_right _ _),
      Nat.add_sub_cancel_left, ih, Option.map_some]

theorem eq_append_of_cutAt? (h : cutAt? n cs = some (a, b)) : cs = a ++ b ∧ byteLength a = n := by
  induction cs generalizing n a with
  | nil =>
    cases n with
    | zero =>
      cases h
      exact ⟨rfl, rfl⟩
    | succ n => exact nomatch h
  | cons c cs ih =>
    by_cases hn : 0 < n
    · rw [cutAt?_cons hn] at h
      split at h
      · next hfits =>
        obtain ⟨⟨a', b'⟩, hcut, h⟩ := Option.map_eq_some_iff.mp h
        cases h
        obtain ⟨rfl, hlength⟩ := ih hcut
        rw [byteLength_cons, hlength]
        exact ⟨rfl, Nat.add_sub_cancel' hfits⟩
      · exact nomatch h
    · obtain rfl := Nat.eq_zero_of_not_pos hn
      cases h
      exact ⟨rfl, rfl⟩

/-- **A text is cut** unless the position is inside of a character. -/
theorem cutAt?_eq_none_iff {s : String} :
    cutAt? n s.toList = none ↔ ¬ String.Pos.Raw.IsValid s ⟨n⟩ := by
  rw [← not_iff_not, not_not, String.Pos.Raw.isValid_iff_exists_append, ← ne_eq,
    Option.ne_none_iff_exists']
  constructor
  · rintro ⟨⟨a, b⟩, h⟩
    obtain ⟨hs, rfl⟩ := eq_append_of_cutAt? h
    refine ⟨String.ofList a, String.ofList b, ?_, ?_⟩
    · rw [← String.ofList_append, ← hs, String.ofList_toList]
    · rw [String.Pos.Raw.ext_iff, String.byteIdx_rawEndPos, ← byteLength_eq_utf8ByteSize,
        String.toList_ofList]
  · rintro ⟨a, b, rfl, h⟩
    have hn : n = byteLength a.toList := by
      rw [byteLength_eq_utf8ByteSize]
      exact congrArg String.Pos.Raw.byteIdx h
    rw [String.toList_append, hn]
    exact ⟨_, cutAt?_append _ _⟩

/-! ### Reading -/

/-- **A character lies across the middle** of the four bytes after a sign, and no colon stands
between hours and minutes. -/
def CutsCharacter (text : String) : Prop :=
  ∃ sign rest, (sign = '+' ∨ sign = '-') ∧ text = String.singleton sign ++ rest ∧
    ':' ∉ rest.toList ∧ rest.utf8ByteSize = 4 ∧ ¬ String.Pos.Raw.IsValid rest ⟨2⟩

theorem cutsCharacter_iff {sign : Char} {rest : String} (hsign : sign = '+' ∨ sign = '-') :
    CutsCharacter (String.singleton sign ++ rest) ↔
      ':' ∉ rest.toList ∧ rest.utf8ByteSize = 4 ∧ ¬ String.Pos.Raw.IsValid rest ⟨2⟩ := by
  constructor
  · rintro ⟨sign', rest', -, htext, h⟩
    rw [← String.toList_inj, String.toList_append, String.toList_append, String.toList_singleton,
      String.toList_singleton, List.singleton_append, List.singleton_append] at htext
    obtain rfl := String.toList_inj.mp (List.cons.inj htext).2
    exact h
  · exact fun h => ⟨sign, rest, hsign, rfl, h⟩

theorem hoursAndMinutes?_eq_none_iff {s : String} : hoursAndMinutes? s.toList = none ↔
    ':' ∉ s.toList ∧ s.utf8ByteSize = 4 ∧ ¬ String.Pos.Raw.IsValid s ⟨2⟩ := by
  rw [← Text.splitOnce?_eq_none_iff, ← cutAt?_eq_none_iff, ← byteLength_eq_utf8ByteSize,
    hoursAndMinutes?]
  cases Text.splitOnce? ':' s.toList with
  | some p => simp
  | none => by_cases h : byteLength s.toList = 4 <;> simp [h]

theorem named_outcomes (regions : Regions) (cs : List Char) :
    (∃ z, named regions cs = .ok z) ∨
      named regions cs = .error (.unknown (String.ofList cs)) := by
  rw [named]
  cases regions (String.ofList cs) with
  | some clocks => exact Or.inl ⟨_, rfl⟩
  | none => exact Or.inr rfl

/-- **A signed offset**, or what a zone of this name comes to. -/
theorem signed_outcomes (regions : Regions) (sign : Int32) (text rest : List Char) :
    (hoursAndMinutes? rest = none →
        signed regions sign text rest = .error (.cutCharacter (String.ofList text))) ∧
      (hoursAndMinutes? rest ≠ none → (∃ z, signed regions sign text rest = .ok z) ∨
        signed regions sign text rest = .error (.unknown (String.ofList text))) := by
  rw [signed]
  cases hoursAndMinutes? rest with
  | none => exact ⟨fun _ => rfl, fun h => absurd rfl h⟩
  | some p =>
    refine ⟨fun h => (nomatch h), fun _ => ?_⟩
    dsimp only
    split
    · exact Or.inl ⟨_, rfl⟩
    · exact named_outcomes regions text

/-- A text that begins with a sign is none of the words for UTC. -/
theorem read_of_sign {s : String} {sign : Char} {rest : List Char}
    (hsign : sign = '+' ∨ sign = '-') (h : Text.trimChars s.toList = sign :: rest) :
    read regions s = signed regions (if sign = '+' then 1 else -1) (sign :: rest) rest := by
  have hword : ∀ w : String, w.toList.head? ≠ some sign.toLower →
      Text.asciiLower (String.ofList (sign :: rest)) ≠ w := by
    rintro w hw rfl
    rw [Text.asciiLower, String.toList_ofList, String.toList_ofList] at hw
    exact hw rfl
  have hutc : ¬ (Text.asciiLower (String.ofList (sign :: rest)) = "utc" ∨
      Text.asciiLower (String.ofList (sign :: rest)) = "z") := by
    refine not_or.mpr ⟨hword _ ?_, hword _ ?_⟩ <;> rcases hsign with rfl | rfl <;> decide
  rw [read, h]
  refine (if_neg hutc).trans ?_
  rcases hsign with rfl | rfl <;> rfl

/-- Any other text is a word for UTC, or a name. -/
theorem read_of_no_sign {s : String}
    (h : ∀ sign rest, sign = '+' ∨ sign = '-' → Text.trimChars s.toList ≠ sign :: rest) :
    read regions s = .ok utc ∨ read regions s = named regions (Text.trimChars s.toList) := by
  rw [read]
  split
  · exact Or.inl rfl
  · refine Or.inr ?_
    split
    · next rest hrest => exact absurd hrest (h _ _ (Or.inl rfl))
    · next rest hrest => exact absurd hrest (h _ _ (Or.inr rfl))
    · rfl

/-- **What reading a zone comes to.** It gives a zone, or says that the trimmed text is none, unless
the middle of the four bytes after a sign is inside of a character: then, and only then, it fails at
the cut. -/
theorem read_outcomes (regions : Regions) (s : String) :
    (CutsCharacter (Text.trim s) → read regions s = .error (.cutCharacter (Text.trim s))) ∧
      (¬ CutsCharacter (Text.trim s) →
        (∃ z, read regions s = .ok z) ∨ read regions s = .error (.unknown (Text.trim s))) := by
  by_cases h : ∃ sign rest, (sign = '+' ∨ sign = '-') ∧ Text.trimChars s.toList = sign :: rest
  · obtain ⟨sign, rest, hsign, hrest⟩ := h
    rw [read_of_sign hsign hrest, Text.trim, hrest, String.ofList_cons, cutsCharacter_iff hsign,
      ← hoursAndMinutes?_eq_none_iff, String.toList_ofList, ← String.ofList_cons]
    exact signed_outcomes _ _ _ _
  · have hcuts : ¬ CutsCharacter (Text.trim s) := by
      rintro ⟨sign, rest, hsign, htext, -⟩
      refine h ⟨sign, rest.toList, hsign, ?_⟩
      rw [← Text.toList_trim, htext, String.toList_append, String.toList_singleton,
        List.singleton_append]
    refine ⟨fun hcut => absurd hcut hcuts, fun _ => ?_⟩
    rcases read_of_no_sign fun sign rest hsign hrest => h ⟨sign, rest, hsign, hrest⟩ with hs | hs
    · exact Or.inl ⟨_, hs⟩
    · rw [hs, Text.trim]
      exact named_outcomes _ _

/-- No region at all. -/
def noRegions : Regions := fun _ => none

/-- Two accented letters are cut between them, and are no offset. -/
theorem read_outcomes_accents : CutsCharacter (Text.trim " +8時") ∧
    read noRegions " +8時" = .error (.cutCharacter "+8時") ∧ ¬ CutsCharacter (Text.trim "+éé") ∧
    ((∃ z, read noRegions "+éé" = .ok z) ∨ read noRegions "+éé" = .error (.unknown "+éé")) := by
  have hcuts : CutsCharacter (Text.trim " +8時") :=
    ⟨'+', "8時", Or.inl rfl, by decide, by decide, by decide, by decide⟩
  have hbetween : ¬ CutsCharacter (Text.trim "+éé") := by
    have htrim : Text.trim "+éé" = String.singleton '+' ++ "éé" := by decide
    rw [htrim, cutsCharacter_iff (Or.inl rfl)]
    decide
  exact ⟨hcuts, (read_outcomes noRegions " +8時").1 hcuts, hbetween,
    (read_outcomes noRegions "+éé").2 hbetween⟩

/-- **Two bytes of three** are no character: eight o'clock in Japanese is cut inside of one, and is
neither a zone nor refused as none. -/
theorem not_read_hourSign : read noRegions "+8時" = .error (.cutCharacter "+8時") ∧
    ¬ ((∃ z, read noRegions "+8時" = .ok z) ∨
      ∃ text, read noRegions "+8時" = .error (.unknown text)) := by
  have hread : read noRegions "+8時" = .error (.cutCharacter "+8時") := rfl
  refine ⟨hread, ?_⟩
  rw [hread]
  rintro (⟨z, hz⟩ | ⟨text, htext⟩)
  · exact nomatch hz
  · exact nomatch htext

end Zone

end SearchCompiler
