import Mathlib.Data.List.Nodup
import Mathlib.Data.List.TakeWhile
import SearchCompiler.Predicate.Grammar
import SearchCompiler.Proofs.Text.Pieces

/-! # Operators in text

What stands where the grammar looks for an operator: the longest symbol that fits, or a keyword in
any case, alone or after a negation. Nothing that would go on with the word follows a keyword, so no
two of them fit the same text.

* `Grammar.ident_eq_ok_iff`: the identifier in front of an operator.
* `Grammar.IsOperator`: the texts of operators, with what may follow them.
* `Grammar.comparator_of_isOperator`, `Grammar.exists_isOperator_of_comparator`: the reader takes
  off exactly such a text, and gives the operator that the text denotes. -/

namespace SearchCompiler

namespace Grammar

/-! ### Runs of characters -/

/-- **A run of characters of a class**, as far as it goes: what follows does not begin with another
one. -/
structure IsRun (p : Char → Bool) (w rest : List Char) : Prop where
  all : ∀ c ∈ w, p c = true
  stops : ∀ c ∈ rest.head?, p c = false

section
variable {p : Char → Bool} {w w' rest rest' : List Char}

theorem isRun_takeWhile (p : Char → Bool) (cs : List Char) :
    IsRun p (cs.takeWhile p) (cs.dropWhile p) where
  all _ hc := List.mem_takeWhile_imp hc
  stops c hc := by
    have hhead := List.head?_dropWhile_not p cs
    rw [Option.mem_def.mp hc] at hhead
    simpa using hhead

theorem IsRun.takeWhile (h : IsRun p w rest) : (w ++ rest).takeWhile p = w := by
  have hrest : rest.takeWhile p = [] := by
    cases rest with
    | nil => rfl
    | cons c rest => exact List.takeWhile_cons_of_neg (by simp [h.stops c rfl])
  rw [List.takeWhile_append_of_pos h.all, hrest, List.append_nil]

theorem IsRun.dropWhile (h : IsRun p w rest) : (w ++ rest).dropWhile p = rest := by
  have hcs := List.takeWhile_append_dropWhile (p := p) (l := w ++ rest)
  rw [h.takeWhile] at hcs
  exact List.append_cancel_left hcs

/-- A text begins with one run only. -/
theorem IsRun.unique (h : IsRun p w rest) (h' : IsRun p w' rest')
    (heq : w ++ rest = w' ++ rest') : w = w' ∧ rest = rest' := by
  have hw : w = w' := by rw [← h.takeWhile, heq, h'.takeWhile]
  subst hw
  exact ⟨rfl, List.append_cancel_left heq⟩

end

/-! ### Keywords -/

/-- **A keyword in any case**, with nothing after it that would go on with the word. -/
structure IsWord (w : String) (o rest : List Char) : Prop where
  letters : o.map Char.toLower = w.toList
  ends : ∀ c ∈ rest.head?, isWordChar c = false

theorem isWordChar_of_toLower {c : Char} (h : isWordChar c.toLower = true) :
    isWordChar c = true := by
  by_cases hc : c.isUpper = true
  · show (((c.isUpper || c.isLower) || c.isDigit) || c == '_') = true
    simp only [hc, Bool.true_or]
  · have hlower : c.toLower = c := dif_neg fun hletter => hc (decide_eq_true hletter)
    rwa [hlower] at h

theorem strip?_eq_some_iff {ws cs rest : List Char} :
    strip? ws cs = some rest ↔ ∃ o, cs = o ++ rest ∧ o.map Char.toLower = ws := by
  fun_induction strip? ws cs with
  | case1 cs => simp
  | case2 w ws => simp
  | case3 ws c cs ih =>
    rw [ih]
    constructor
    · rintro ⟨o, rfl, rfl⟩
      exact ⟨c :: o, rfl, rfl⟩
    · rintro ⟨_ | ⟨c', o⟩, heq, hw⟩
      · simp at hw
      · obtain ⟨rfl, rfl⟩ := List.cons.inj heq
        exact ⟨o, rfl, (List.cons.inj hw).2⟩
  | case4 w ws c cs hc =>
    refine iff_of_false (fun h => nomatch h) ?_
    rintro ⟨_ | ⟨c', o⟩, heq, hw⟩
    · simp at hw
    · obtain ⟨rfl, -⟩ := List.cons.inj heq
      exact hc (List.cons.inj hw).1

theorem word?_eq_some_iff {w : String} {cs rest : List Char} :
    word? w cs = some rest ↔ ∃ o, cs = o ++ rest ∧ IsWord w o rest := by
  have hends : endsWord rest = true ↔ ∀ c ∈ rest.head?, isWordChar c = false := by
    cases rest <;> simp [endsWord]
  rw [word?, Option.filter_eq_some_iff, strip?_eq_some_iff, hends]
  exact ⟨fun ⟨⟨o, ho, hw⟩, h⟩ => ⟨o, ho, hw, h⟩, fun ⟨o, ho, h⟩ => ⟨⟨o, ho, h.letters⟩, h.ends⟩⟩

section
variable {w w' : String} {o o' rest rest' : List Char}

theorem IsWord.isRun (h : IsWord w o rest) (hw : w.toList.all isWordChar = true) :
    IsRun isWordChar o rest where
  all c hc := by
    refine isWordChar_of_toLower (List.all_eq_true.mp hw _ ?_)
    rw [← h.letters]
    exact List.mem_map_of_mem hc
  stops := h.ends

theorem IsWord.unique (h : IsWord w o rest) (h' : IsWord w' o' rest')
    (hw : w.toList.all isWordChar = true) (hw' : w'.toList.all isWordChar = true)
    (heq : o ++ rest = o' ++ rest') : w = w' := by
  obtain ⟨rfl, -⟩ := (h.isRun hw).unique (h'.isRun hw') heq
  exact String.toList_injective (h.letters.symm.trans h'.letters)

theorem word?_eq_none (h : IsWord w o rest) (hw : w.toList.all isWordChar = true)
    (hw' : w'.toList.all isWordChar = true) (hne : w' ≠ w) : word? w' (o ++ rest) = none := by
  refine Option.eq_none_iff_forall_ne_some.mpr fun rest' h' => ?_
  obtain ⟨o', heq, h'⟩ := word?_eq_some_iff.mp h'
  exact hne (h'.unique h hw' hw heq.symm)

end

/-- The keyword of a list that fits, whichever place it has in the list. -/
theorem firstWord?_eq_some_iff {ws : List (String × Op)} {cs rest : List Char} {op : Op}
    (hws : ws.all fun e => e.1.toList.all isWordChar) (hn : (ws.map Prod.fst).Nodup) :
    firstWord? ws cs = some (op, rest) ↔
      ∃ w o, (w, op) ∈ ws ∧ cs = o ++ rest ∧ IsWord w o rest := by
  have hword : ∀ e ∈ ws, e.1.toList.all isWordChar = true := List.all_eq_true.mp hws
  have hfits : ∀ {r : Op × List Char}, firstWord? ws cs = some r →
      ∃ w o, (w, r.1) ∈ ws ∧ cs = o ++ r.2 ∧ IsWord w o r.2 := by
    intro r h
    obtain ⟨e, he, hmap⟩ := List.exists_of_findSome?_eq_some h
    obtain ⟨rest', hword, rfl⟩ := Option.map_eq_some_iff.mp hmap
    obtain ⟨o, ho, hfit⟩ := word?_eq_some_iff.mp hword
    exact ⟨e.1, o, he, ho, hfit⟩
  refine ⟨hfits, ?_⟩
  rintro ⟨w, o, hmem, rfl, h⟩
  obtain ⟨r, hr⟩ : ∃ r, firstWord? ws (o ++ rest) = some r := by
    refine Option.isSome_iff_exists.mp (List.findSome?_isSome_iff.mpr ⟨_, hmem, ?_⟩)
    rw [word?_eq_some_iff.mpr ⟨o, rfl, h⟩]
    rfl
  obtain ⟨w', o', hmem', heq, h'⟩ := hfits hr
  obtain rfl := h.unique h' (hword _ hmem) (hword _ hmem') heq
  obtain ⟨rfl, hrest⟩ := (h.isRun (hword _ hmem)).unique (h'.isRun (hword _ hmem)) heq
  have hop : op = r.1 := congrArg Prod.snd (List.inj_on_of_nodup_map hn hmem hmem' rfl)
  rw [hr, hop, hrest]

/-! ### Symbols -/

/-- The symbols of comparisons. -/
def symbols : List String := ["==", "<>", "!=", ">=", "<=", "=", ">", "<"]

/-- **A symbol**, of those that fit the longest one. -/
structure IsSymbol (o rest : List Char) : Prop where
  mem : ∃ s ∈ symbols, s.toList = o
  longest : ∀ s ∈ symbols, s.toList <+: o ++ rest → s.length ≤ o.length

/-- A symbol stops where a longer one would go on. -/
theorem IsSymbol.ne_cons {c d : Char} {rest r : List Char} (h : IsSymbol [c] rest)
    (hs : String.ofList [c, d] ∈ symbols) : rest ≠ d :: r := by
  rintro rfl
  have hle := h.longest _ hs ⟨r, by simp⟩
  simp at hle

theorem symbol?_of_isSymbol {o rest : List Char} (h : IsSymbol o rest) :
    ∃ op, Op.read? (String.ofList o) = some op ∧ symbol? (o ++ rest) = some (op, rest) := by
  obtain ⟨s, hs, rfl⟩ := h.mem
  simp only [symbols, List.mem_cons, List.not_mem_nil, or_false] at hs
  rcases hs with rfl | rfl | rfl | rfl | rfl | rfl | rfl | rfl
  · exact ⟨.eq, by decide, rfl⟩
  · exact ⟨.ne, by decide, rfl⟩
  · exact ⟨.ne, by decide, rfl⟩
  · exact ⟨.gte, by decide, rfl⟩
  · exact ⟨.lte, by decide, rfl⟩
  · refine ⟨.eq, by decide, ?_⟩
    rw [show "=".toList ++ rest = '=' :: rest from rfl, symbol?]
    exact fun r => h.ne_cons (d := '=') (by decide)
  · refine ⟨.gt, by decide, ?_⟩
    rw [show ">".toList ++ rest = '>' :: rest from rfl, symbol?]
    exact fun r => h.ne_cons (d := '=') (by decide)
  · refine ⟨.lt, by decide, ?_⟩
    rw [show "<".toList ++ rest = '<' :: rest from rfl, symbol?]
    · exact fun r => h.ne_cons (d := '>') (by decide)
    · exact fun r => h.ne_cons (d := '=') (by decide)

theorem exists_isSymbol {cs : List Char} (h : ∃ s ∈ symbols, s.toList <+: cs) :
    ∃ o rest, cs = o ++ rest ∧ IsSymbol o rest := by
  -- the table has the longer symbols first, so that the first that fits is a longest one
  have hsorted : symbols.Pairwise fun s s' => s'.length ≤ s.length := by decide
  obtain ⟨s, hfind⟩ : ∃ s, symbols.find? (fun s => s.toList.isPrefixOf cs) = some s := by
    simpa [← Option.isSome_iff_exists] using h
  obtain ⟨hs, before, after, htable, hbefore⟩ := List.find?_eq_some_iff_append.mp hfind
  obtain ⟨rest, rfl⟩ := List.isPrefixOf_iff_prefix.mp hs
  refine ⟨s.toList, rest, rfl, ⟨s, List.mem_of_find?_eq_some hfind, rfl⟩, fun s' hs' hpre => ?_⟩
  rw [htable] at hs' hsorted
  rcases List.mem_append.mp hs' with hs' | hs'
  · have hno := hbefore s' hs'
    rw [List.isPrefixOf_iff_prefix.mpr hpre] at hno
    exact absurd hno (by decide)
  · rcases List.mem_cons.mp hs' with rfl | hs'
    · exact String.length_toList.ge
    · exact ((List.pairwise_cons.mp (List.pairwise_append.mp hsorted).2.1).1 s' hs').trans
        String.length_toList.ge

theorem exists_isSymbol_of_symbol? {cs rest : List Char} {op : Op}
    (h : symbol? cs = some (op, rest)) : ∃ o, cs = o ++ rest ∧ IsSymbol o rest := by
  have hfits : ∃ s ∈ symbols, s.toList <+: cs := by
    unfold symbol? at h
    split at h
    · exact ⟨"==", by decide, _, rfl⟩
    · exact ⟨"<>", by decide, _, rfl⟩
    · exact ⟨"!=", by decide, _, rfl⟩
    · exact ⟨">=", by decide, _, rfl⟩
    · exact ⟨"<=", by decide, _, rfl⟩
    · exact ⟨"=", by decide, _, rfl⟩
    · exact ⟨">", by decide, _, rfl⟩
    · exact ⟨"<", by decide, _, rfl⟩
    · exact nomatch h
  obtain ⟨o, rest', rfl, ho⟩ := exists_isSymbol hfits
  obtain ⟨op', -, hop'⟩ := symbol?_of_isSymbol ho
  obtain rfl : rest' = rest := congrArg Prod.snd (Option.some.inj (hop'.symm.trans h))
  exact ⟨o, rfl, ho⟩

/-! ### Gaps and identifiers -/

theorem isBlank_of_isGap {c : Char} (h : isGap c = true) : Text.isBlank c = true := by
  simp only [isGap, Bool.or_eq_true, beq_iff_eq] at h
  rcases h with ((rfl | rfl) | rfl) | rfl <;> decide

theorem isBlank_of_isIdentChar {c : Char} (h : isIdentChar c = true) : Text.isBlank c = false := by
  have hcode (h : c.isAlphanum = true) : 48 ≤ c.toNat ∧ c.toNat ≤ 122 := by
    delta Char.isAlphanum Char.isAlpha Char.isUpper Char.isLower Char.isDigit at h
    simp only [Bool.or_eq_true, Bool.and_eq_true, decide_eq_true_eq,
      UInt32.le_iff_toNat_le] at h
    rcases h with (h | h) | h <;>
      exact ⟨Nat.le_trans (by decide) h.1, Nat.le_trans h.2 (by decide)⟩
  simp only [isIdentChar, isWordChar, Bool.or_eq_true, beq_iff_eq] at h
  rcases h with (((h | rfl) | rfl) | rfl) | rfl
  · obtain ⟨hlow, hhigh⟩ := hcode h
    simp only [Text.isBlank, Bool.or_eq_false_iff, Bool.and_eq_false_iff,
      decide_eq_false_iff_not, beq_eq_false_iff_ne]
    omega
  all_goals decide

theorem isGap_of_isIdentChar {c : Char} (h : isIdentChar c = true) : isGap c = false := by
  by_contra hgap
  have hblank := isBlank_of_isGap (Bool.not_eq_false _ ▸ hgap)
  rw [isBlank_of_isIdentChar h] at hblank
  exact absurd hblank (by decide)

theorem isIdentChar_of_isWordChar {c : Char} (h : isWordChar c = true) : isIdentChar c = true := by
  simp [isIdentChar, h]

theorem ident_eq_ok_iff {cs f rest : List Char} :
    ident cs = .ok (f, rest) ↔ f ≠ [] ∧ cs = f ++ rest ∧ IsRun isIdentChar f rest := by
  have hrun := isRun_takeWhile isIdentChar cs
  unfold ident
  split
  · next hnil =>
    refine iff_of_false (fun h => nomatch h) ?_
    rintro ⟨hne, rfl, h⟩
    exact hne (h.takeWhile.symm.trans hnil)
  · next name hname =>
    constructor
    · intro h
      obtain ⟨rfl, rfl⟩ := Prod.mk.inj (Except.ok.inj h)
      exact ⟨hname, List.takeWhile_append_dropWhile.symm, hrun⟩
    · rintro ⟨-, rfl, h⟩
      rw [h.takeWhile, h.dropWhile]

/-! ### Operators -/

/-- **An operator at the front of a text**, as it is written there, and what follows it. -/
inductive IsOperator : List Char → List Char → Prop
  | symbol {o rest : List Char} (h : IsSymbol o rest) : IsOperator o rest
  | word {w : String} {o rest : List Char} (hw : w ∈ ["in", "like", "match", "matchall"])
      (h : IsWord w o rest) : IsOperator o rest
  | negated {w : String} {n gap o rest : List Char} (hn : IsWord "not" n (gap ++ o ++ rest))
      (hne : gap ≠ []) (hgap : ∀ c ∈ gap, isGap c = true) (hw : w ∈ ["like", "match"])
      (h : IsWord w o rest) : IsOperator (n ++ gap ++ o) rest

section
variable {w : String} {n gap o rest : List Char}

theorem IsWord.not_blank (h : IsWord w o rest) (hw : w.toList.all isWordChar = true) :
    ∀ c ∈ o, Text.isBlank c = false := fun c hc =>
  isBlank_of_isIdentChar (isIdentChar_of_isWordChar ((h.isRun hw).all c hc))

theorem IsWord.ne_nil (h : IsWord w o rest) (hw : w ≠ "") : o ≠ [] := by
  rintro rfl
  exact hw (String.toList_injective h.letters.symm)

theorem IsWord.asciiLower (h : IsWord w o rest) : Text.asciiLower (String.ofList o) = w := by
  rw [Text.asciiLower, String.toList_ofList, h.letters, String.ofList_toList]

theorem keyword_of_isWord (h : IsWord w o rest) (hw : w.toList.all isWordChar = true)
    (hne : w ≠ "") : Op.keyword (String.ofList o) = w := by
  rw [Op.keyword, String.toList_ofList, Text.words_of_not_blank (h.not_blank hw) (h.ne_nil hne)]
  exact h.asciiLower

theorem keyword_of_negated (hn : IsWord "not" n (gap ++ o ++ rest)) (hne : gap ≠ [])
    (hgap : ∀ c ∈ gap, isGap c = true) (h : IsWord w o rest)
    (hw : w.toList.all isWordChar = true) (hw' : w ≠ "") :
    Op.keyword (String.ofList (n ++ gap ++ o)) = "not " ++ w := by
  obtain ⟨b, gap, rfl⟩ := List.exists_cons_of_ne_nil hne
  have hblank : ∀ c ∈ b :: gap, Text.isBlank c = true := fun c hc => isBlank_of_isGap (hgap c hc)
  have hwords : Text.words (n ++ b :: gap ++ o) = [n, o] := by
    rw [List.append_assoc, List.cons_append, Text.words_append (hn.not_blank (by decide))
      (hn.ne_nil (by decide)) (hblank b List.mem_cons_self),
      Text.words_blank_append fun c hc => hblank c (List.mem_cons_of_mem _ hc),
      Text.words_of_not_blank (h.not_blank hw) (h.ne_nil hw')]
  have hjoin : String.intercalate " " ([n, o].map String.ofList) =
      String.ofList n ++ " " ++ String.ofList o := rfl
  refine String.toList_injective ?_
  rw [Op.keyword, String.toList_ofList, hwords, hjoin, Text.asciiLower]
  simp [hn.letters, h.letters]

end

theorem firstWord?_of_isWord {ws : List (String × Op)} {w : String} {op : Op}
    {o rest : List Char} (hws : ws.all fun e => e.1.toList.all isWordChar)
    (hn : (ws.map Prod.fst).Nodup) (hmem : (w, op) ∈ ws) (h : IsWord w o rest) :
    firstWord? ws (o ++ rest) = some (op, rest) :=
  (firstWord?_eq_some_iff hws hn).mpr ⟨w, o, hmem, rfl, h⟩

theorem word?_eq_none_of_head {w : String} {cs : List Char} (hw : w.toList.all isWordChar = true)
    (hne : w ≠ "") (h : ∀ c ∈ cs.head?, isWordChar c = false) : word? w cs = none := by
  refine Option.eq_none_iff_forall_ne_some.mpr fun rest hsome => ?_
  obtain ⟨o, rfl, ho⟩ := word?_eq_some_iff.mp hsome
  obtain ⟨c, o, rfl⟩ := List.exists_cons_of_ne_nil (ho.ne_nil hne)
  have hc := (ho.isRun hw).all c List.mem_cons_self
  rw [h c rfl] at hc
  exact absurd hc (by decide)

/-- Where no word stands, only a symbol can. -/
theorem comparator_of_head {cs : List Char} {r : Op × List Char}
    (h : ∀ c ∈ cs.head?, isWordChar c = false) (hr : symbol? cs = some r) :
    comparator cs = .ok r := by
  have hplain : firstWord? plainWords cs = none := by
    refine List.findSome?_eq_none_iff.mpr fun e he => ?_
    have hall : e.1.toList.all isWordChar = true ∧ e.1 ≠ "" :=
      (show ∀ e ∈ plainWords, e.1.toList.all isWordChar = true ∧ e.1 ≠ "" by decide) e he
    rw [word?_eq_none_of_head hall.1 hall.2 h]
    rfl
  rw [comparator, word?_eq_none_of_head (by decide) (by decide) h]
  simp only [hplain, hr, Option.none_or]

/-- **What is written as an operator is taken off**, and it is read as the operator it denotes. -/
theorem comparator_of_isOperator {o rest : List Char} (h : IsOperator o rest) :
    ∃ op, Op.read? (String.ofList o) = some op ∧ comparator (o ++ rest) = .ok (op, rest) := by
  cases h with
  | symbol h =>
    obtain ⟨op, hread, hop⟩ := symbol?_of_isSymbol h
    refine ⟨op, hread, comparator_of_head ?_ hop⟩
    obtain ⟨s, hs, rfl⟩ := h.mem
    simp only [symbols, List.mem_cons, List.not_mem_nil, or_false] at hs
    rcases hs with rfl | rfl | rfl | rfl | rfl | rfl | rfl | rfl <;> rintro _ ⟨⟩ <;> rfl
  | @word w _ _ hw h =>
    have hall : w.toList.all isWordChar = true ∧ w ≠ "" ∧ w ≠ "not" :=
      (show ∀ w ∈ ["in", "like", "match", "matchall"],
        w.toList.all isWordChar = true ∧ w ≠ "" ∧ w ≠ "not" by decide) w hw
    obtain ⟨op, hop, hkey⟩ : ∃ op, (w, op) ∈ plainWords ∧
        (Op.keywords.find? fun e => e.1 == w).map (·.2) = some op := by
      simp only [List.mem_cons, List.not_mem_nil, or_false] at hw
      rcases hw with rfl | rfl | rfl | rfl <;> exact ⟨_, by decide, rfl⟩
    refine ⟨op, by rw [Op.read?, keyword_of_isWord h hall.1 hall.2.1, hkey], ?_⟩
    rw [comparator, word?_eq_none h hall.1 (by decide) hall.2.2.symm]
    simp only [firstWord?_of_isWord (by decide) (by decide) hop h, Option.some_or]
  | @negated w n gap o rest hn hne hgap hw h =>
    have hall : w.toList.all isWordChar = true ∧ w ≠ "" :=
      (show ∀ w ∈ ["like", "match"], w.toList.all isWordChar = true ∧ w ≠ "" by decide) w hw
    obtain ⟨op, hop, hkey⟩ : ∃ op, (w, op) ∈ negatedWords ∧
        (Op.keywords.find? fun e => e.1 == "not " ++ w).map (·.2) = some op := by
      simp only [List.mem_cons, List.not_mem_nil, or_false] at hw
      rcases hw with rfl | rfl <;> exact ⟨_, by decide, rfl⟩
    have hskip : skip (gap ++ o ++ rest) = o ++ rest := by
      rw [List.append_assoc]
      refine IsRun.dropWhile ⟨hgap, ?_⟩
      obtain ⟨c, o, rfl⟩ := List.exists_cons_of_ne_nil (h.ne_nil hall.2)
      rintro _ ⟨⟩
      have hc := (h.isRun hall.1).all c List.mem_cons_self
      exact isGap_of_isIdentChar (isIdentChar_of_isWordChar hc)
    refine ⟨op, by rw [Op.read?, keyword_of_negated hn hne hgap h hall.1 hall.2, hkey], ?_⟩
    rw [comparator, word?_eq_some_iff.mpr ⟨n, by simp, hn⟩]
    simp only [hskip, firstWord?_of_isWord (by decide) (by decide) hop h]

theorem exists_isOperator_of_comparator {cs rest : List Char} {op : Op}
    (h : comparator cs = .ok (op, rest)) : ∃ o, cs = o ++ rest ∧ IsOperator o rest := by
  unfold comparator at h
  split at h
  · next left hnot =>
    obtain ⟨n, rfl, hn⟩ := word?_eq_some_iff.mp hnot
    split at h
    · next r hr =>
      obtain rfl := Except.ok.inj h
      obtain ⟨w, o, hmem, heq, ho⟩ := (firstWord?_eq_some_iff (by decide) (by decide)).mp hr
      obtain ⟨hw, hall, hne⟩ : w ∈ ["like", "match"] ∧ w.toList.all isWordChar = true ∧ w ≠ "" :=
        (show ∀ e ∈ negatedWords, e.1 ∈ ["like", "match"] ∧
          e.1.toList.all isWordChar = true ∧ e.1 ≠ "" by decide) _ hmem
      have hleft : left = left.takeWhile isGap ++ o ++ rest := by
        rw [List.append_assoc, ← heq]
        exact List.takeWhile_append_dropWhile.symm
      -- a word right after the negation would go on with it
      have hgap : left.takeWhile isGap ≠ [] := by
        intro hnil
        obtain ⟨c, o, rfl⟩ := List.exists_cons_of_ne_nil (ho.ne_nil hne)
        rw [hnil] at hleft
        have hc := (ho.isRun hall).all c List.mem_cons_self
        rw [hn.ends c (by rw [hleft]; rfl)] at hc
        exact absurd hc (by decide)
      rw [hleft] at hn
      refine ⟨n ++ left.takeWhile isGap ++ o, ?_,
        .negated hn hgap (isRun_takeWhile isGap left).all hw ho⟩
      rw [List.append_assoc, List.append_assoc, ← List.append_assoc (left.takeWhile isGap), ← hleft]
    · exact nomatch h
  · split at h
    · next r hr =>
      obtain rfl := Except.ok.inj h
      rcases Option.or_eq_some_iff.mp hr with hr | ⟨-, hr⟩
      · obtain ⟨w, o, hmem, heq, ho⟩ := (firstWord?_eq_some_iff (by decide) (by decide)).mp hr
        have hw : w ∈ ["in", "like", "match", "matchall"] :=
          (show ∀ e ∈ plainWords, e.1 ∈ ["in", "like", "match", "matchall"] by decide) _ hmem
        exact ⟨o, heq, .word hw ho⟩
      · obtain ⟨o, heq, ho⟩ := exists_isSymbol_of_symbol? hr
        exact ⟨o, heq, .symbol ho⟩
    · exact nomatch h

end Grammar

end SearchCompiler
