import SearchCompiler.Proofs.Predicate.Aggregation

/-! # Columns and orderings in text

A column that is written out, a name or an aggregation, is read again as that column, and with a
direction after it as the ordering of that column. An aggregation is looked for first, and the name
of one may stand in front of any other letters; but only a bracket makes it an aggregation, and no
name has one, so an identifier is a name whatever it begins with.

* `Grammar.mem_of_aggregateCall`: the bracket of an aggregation.
* `OrderEntry.read_append`: a column and what is read as its direction.
* `Selection.Written.reads`: reading what was written. -/

namespace SearchCompiler

namespace Grammar

/-- There is no aggregation without a bracket. -/
theorem mem_of_aggregateCall {cs : List Char} {r : (List Char × List Char) × List Char}
    (h : aggregateCall cs = .ok r) : '(' ∈ cs := by
  unfold aggregateCall at h
  split at h
  · exact nomatch h
  · next w rest hname =>
    split at h
    · next after hskip =>
      obtain ⟨n, -, hmap⟩ := List.exists_of_findSome?_eq_some hname
      obtain ⟨left, hleft, heq⟩ := Option.map_eq_some_iff.mp hmap
      obtain rfl : left = rest := congrArg Prod.snd heq
      obtain ⟨o, rfl, -⟩ := strip?_eq_some_iff.mp hleft
      have hmem : '(' ∈ skip left := hskip ▸ List.mem_cons_self
      exact List.mem_append_right o ((List.dropWhile_sublist isGap).subset hmem)
    · exact nomatch h

theorem isIdentChar_of_isGap {c : Char} (h : isGap c = true) : isIdentChar c = false := by
  by_contra hc
  rw [isGap_of_isIdentChar (Bool.not_eq_false _ ▸ hc)] at h
  exact absurd h (by decide)

end Grammar

open Grammar

namespace Selection

/-- **A column that can be written out**: an identifier, or an aggregation over a star or an
identifier. -/
inductive Written : Selection → Prop
  | name {n : String} (hne : n ≠ "") (hn : n.toList.all isIdentChar = true) : Written (.name n)
  | aggregate {o : Op} {t : String} (ho : o.cls = .aggregation)
    (ht : t = "*" ∨ t ≠ "" ∧ t.toList.all isIdentChar = true) :
    Written (.aggregate (.aggregate o (.name t)))

/-- The text of a column. -/
def text : Selection → String
  | .name n => n
  | .aggregate e => e.text

theorem toList_text_aggregate {o : Op} (ho : o.cls = .aggregation) (t : String) :
    (text (.aggregate (.aggregate o (.name t)))).toList =
      o.text.toList ++ '(' :: (t.toList ++ [')']) := by
  simp [text, Expr.aggregate, Expr.text, Operand.text, ho]

theorem isFunction_text {o : Op} (ho : o.cls = .aggregation) : IsFunction o o.text.toList :=
  ⟨ho, String.toList_ofList.symm⟩

theorem isTarget_toList {t : String} (ht : t = "*" ∨ t ≠ "" ∧ t.toList.all isIdentChar = true) :
    IsTarget t.toList := by
  rcases ht with rfl | ⟨hne, ht⟩
  · exact Or.inl rfl
  · exact Or.inr ⟨fun h => hne (String.toList_eq_nil_iff.mp h), List.all_eq_true.mp ht⟩

variable {s : Selection}

theorem Written.ne_nil (hs : s.Written) : s.text.toList ≠ [] := by
  cases hs with
  | name hne _ => exact fun h => hne (String.toList_eq_nil_iff.mp h)
  | aggregate ho _ => simp [toList_text_aggregate ho]

theorem Written.isBlank_ends (hs : s.Written) :
    (∀ c ∈ s.text.toList.head?, Text.isBlank c = false) ∧
      ∀ c ∈ s.text.toList.getLast?, Text.isBlank c = false := by
  cases hs with
  | name _ hn =>
    have hblank : ∀ c ∈ _, Text.isBlank c = false := fun c hc =>
      isBlank_of_isIdentChar (List.all_eq_true.mp hn c hc)
    exact ⟨fun c hc => hblank c (List.mem_of_mem_head? hc),
      fun c hc => hblank c (List.mem_of_getLast? hc)⟩
  | @aggregate o t ho _ =>
    rw [toList_text_aggregate ho]
    constructor
    · cases o <;> first | exact absurd ho (by decide) | (rintro _ ⟨⟩; rfl)
    · rw [← List.cons_append, ← List.append_assoc, List.getLast?_concat]
      rintro _ ⟨⟩
      rfl

end Selection

namespace OrderEntry

/-- **What stands between a column and its direction**: at least one blank, or a comma with any
blanks around it. -/
inductive IsSeparator : List Char → Prop
  | blanks {a : List Char} (hne : a ≠ []) (ha : ∀ c ∈ a, isGap c = true) : IsSeparator a
  | comma {a b : List Char} (ha : ∀ c ∈ a, isGap c = true) (hb : ∀ c ∈ b, isGap c = true) :
    IsSeparator (a ++ ',' :: b)

variable {sep w rest : List Char} {d : SortOrder}

theorem IsSeparator.ne_nil (h : IsSeparator sep) : sep ≠ [] := by
  cases h with
  | blanks hne _ => exact hne
  | comma _ _ => simp

theorem IsSeparator.isGap_or_eq (h : IsSeparator sep) {c : Char} (hc : c ∈ sep) :
    isGap c = true ∨ c = ',' := by
  cases h with
  | blanks _ ha => exact Or.inl (ha c hc)
  | comma ha hb =>
    rcases List.mem_append.mp hc with hc | hc
    · exact Or.inl (ha c hc)
    · exact (List.mem_cons.mp hc).symm.imp_left (hb c)

theorem direction_word (hw : w.map Char.toLower = d.text.toList) : direction w = (d, []) := by
  have hword : IsWord d.text w [] := ⟨hw, fun _ hc => nomatch hc⟩
  have hthis : word? d.text w = some [] := word?_eq_some_iff.mpr ⟨w, by simp, hword⟩
  cases d with
  | asc =>
    rw [direction]
    simp only [show word? "asc" w = some [] from hthis]
  | desc =>
    have hother : word? "asc" w = none := by
      have hnone : word? "asc" (w ++ []) = none :=
        word?_eq_none hword (by decide) (by decide) (by decide)
      rwa [List.append_nil] at hnone
    rw [direction]
    simp only [hother, show word? "desc" w = some [] from hthis]

theorem isWordChar_of_direction (hw : w.map Char.toLower = d.text.toList) :
    w ≠ [] ∧ ∀ c ∈ w, isWordChar c = true := by
  have hword : IsWord d.text w [] := ⟨hw, fun _ hc => nomatch hc⟩
  cases d with
  | asc => exact ⟨hword.ne_nil (by decide), (hword.isRun (by decide)).all⟩
  | desc => exact ⟨hword.ne_nil (by decide), (hword.isRun (by decide)).all⟩

theorem direction_separated (hsep : IsSeparator sep) (hw : w.map Char.toLower = d.text.toList) :
    direction (optionalComma (skip (sep ++ w))) = (d, []) := by
  obtain ⟨hne, hchars⟩ := isWordChar_of_direction hw
  have hident : ∀ c ∈ w.head?, isIdentChar c = true := fun c hc =>
    isIdentChar_of_isWordChar (hchars c (List.mem_of_mem_head? hc))
  have hskip {a : List Char} (ha : ∀ c ∈ a, isGap c = true) : skip (a ++ w) = w :=
    IsRun.dropWhile ⟨ha, fun c hc => isGap_of_isIdentChar (hident c hc)⟩
  cases hsep with
  | blanks _ ha =>
    have hcomma : optionalComma w = w := by
      obtain ⟨c, w, rfl⟩ := List.exists_cons_of_ne_nil hne
      have hc := hident c rfl
      rw [optionalComma]
      rintro _ h
      obtain rfl : c = ',' := (List.cons.inj h).1
      exact absurd hc (by decide)
    rw [hskip ha, hcomma, direction_word hw]
  | @comma a b ha hb =>
    have hcomma : skip (a ++ ',' :: b ++ w) = ',' :: (b ++ w) := by
      rw [List.append_assoc, List.cons_append]
      exact IsRun.dropWhile ⟨ha, by rintro _ ⟨⟩; rfl⟩
    rw [hcomma, optionalComma, hskip hb, direction_word hw]

/-- **A column, and after it what is read as a direction**, has no bracket and does not go on with a
name, is read as the ordering of that column. -/
theorem read_append {s : Selection} (hs : s.Written) {x : String}
    (hx : Text.trimChars x.toList = s.text.toList ++ rest) (hparen : '(' ∉ rest)
    (hstops : ∀ c ∈ rest.head?, isIdentChar c = false)
    (hd : direction (optionalComma (skip rest)) = (d, [])) : read x = .ok ⟨s, d⟩ := by
  cases hs with
  | @name n hne hn =>
    have hn : ∀ c ∈ n.toList, isIdentChar c = true := List.all_eq_true.mp hn
    have hident : ident (n.toList ++ rest) = .ok (n.toList, rest) :=
      ident_eq_ok_iff.mpr ⟨fun h => hne (String.toList_eq_nil_iff.mp h), rfl, hn, hstops⟩
    have hcall : ∀ r, aggregateCall (n.toList ++ rest) ≠ .ok r := by
      intro r hr
      rcases List.mem_append.mp (mem_of_aggregateCall hr) with h | h
      · exact absurd (hn _ h) (by decide)
      · exact hparen h
    have htarget : targetPart (n.toList ++ rest) = .ok (.name n.toList, rest) := by
      unfold targetPart
      split
      · next h => exact absurd h (hcall _)
      · rw [hident]
    have hparts : parts (n.toList ++ rest) = .ok ((.name n.toList, d), []) := by
      unfold parts
      simp only [htarget, hd, show skip [] = [] from rfl]
    unfold read
    simp only [hx, Selection.text, hparts, String.ofList_toList]
  | @aggregate o t ho ht =>
    have htext : Text.trimChars x.toList = o.text.toList ++ '(' :: (t.toList ++ ')' :: rest) := by
      rw [hx, Selection.toList_text_aggregate ho]
      simp
    rw [read_call (Selection.isFunction_text ho) (Selection.isTarget_toList ht) hd htext,
      String.ofList_toList]

end OrderEntry

namespace Selection

variable {s : Selection}

theorem Written.trimChars_text (hs : s.Written) : Text.trimChars s.text.toList = s.text.toList :=
  Text.trimChars_eq_self hs.isBlank_ends.1 hs.isBlank_ends.2

theorem Written.read_text (hs : s.Written) : read s.text = .ok s := by
  rw [read, hs.trimChars_text]
  cases hs with
  | @name n hne hn =>
    have hcall : ∀ r, aggregateCall n.toList ≠ .ok r := fun r hr =>
      absurd (List.all_eq_true.mp hn _ (mem_of_aggregateCall hr)) (by decide)
    have hnone : call? n.toList = none := by
      unfold call?
      split
      · next h => exact absurd h (hcall _)
      · rfl
    have htrim : Text.trim n = n := String.toList_injective
      ((Text.toList_trim n).trans (Written.name hne hn).trimChars_text)
    simp only [text, hnone, htrim]
  | @aggregate o t ho ht =>
    have hcall : call? (o.text.toList ++ '(' :: (t.toList ++ [')'])) =
        some (o.text.toList, t.toList) := by
      rw [call?, aggregateCall_append (isFunction_text ho) (isTarget_toList ht)]
      rfl
    rw [toList_text_aggregate ho, hcall]
    simp only [aggregateExpr_of_isFunction (isFunction_text ho), String.ofList_toList]
    rfl

/-- **A column is read from its text**, and so is its ordering, ascending if no direction is given
and else by that direction, in any case. -/
theorem Written.reads (hs : s.Written) :
    read s.text = .ok s ∧ OrderEntry.read s.text = .ok ⟨s, .asc⟩ ∧
      ∀ {sep w : String} {d : SortOrder}, OrderEntry.IsSeparator sep.toList →
        Text.asciiLower w = d.text → OrderEntry.read (s.text ++ sep ++ w) = .ok ⟨s, d⟩ := by
  refine ⟨hs.read_text, ?_, fun {sep w d} hsep hw => ?_⟩
  · have htext : Text.trimChars s.text.toList = s.text.toList ++ [] := by
      rw [hs.trimChars_text, List.append_nil]
    exact OrderEntry.read_append hs htext List.not_mem_nil (fun _ hc => nomatch hc) rfl
  · have hw : w.toList.map Char.toLower = d.text.toList := by
      rw [← hw, Text.asciiLower, String.toList_ofList]
    obtain ⟨hne, hchars⟩ := OrderEntry.isWordChar_of_direction hw
    have htext : (s.text ++ sep ++ w).toList = s.text.toList ++ (sep.toList ++ w.toList) := by simp
    refine OrderEntry.read_append hs ?_ ?_ ?_ (OrderEntry.direction_separated hsep hw)
    · rw [htext]
      refine Text.trimChars_between hs.ne_nil hne hs.isBlank_ends.1 (fun c hc => ?_) _
      exact isBlank_of_isIdentChar (isIdentChar_of_isWordChar (hchars c (List.mem_of_getLast? hc)))
    · intro h
      rcases List.mem_append.mp h with h | h
      · exact absurd (hsep.isGap_or_eq h) (by decide)
      · exact absurd (hchars _ h) (by decide)
    · intro c hc
      rw [List.head?_append_of_ne_nil _ hsep.ne_nil] at hc
      rcases hsep.isGap_or_eq (List.mem_of_mem_head? hc) with h | rfl
      · exact isIdentChar_of_isGap h
      · rfl

/-- An aggregation over all documents, and a name that begins like one. -/
theorem Written.reads_count :
    (Written (.aggregate (.aggregate .count (.name "*"))) ∧ Written (.name "counts") ∧
      OrderEntry.IsSeparator " ,".toList ∧ Text.asciiLower "DESC" = SortOrder.desc.text) ∧
    read "COUNT(*)" = .ok (.aggregate (.aggregate .count (.name "*"))) ∧
    OrderEntry.read "COUNT(*) ,DESC" = .ok ⟨.aggregate (.aggregate .count (.name "*")), .desc⟩ ∧
    OrderEntry.read "counts" = .ok ⟨.name "counts", .asc⟩ ∧
    OrderEntry.read "counts ,DESC" = .ok ⟨.name "counts", .desc⟩ := by
  have hcount : Written (.aggregate (.aggregate .count (.name "*"))) := .aggregate rfl (Or.inl rfl)
  have hname : Written (.name "counts") := .name (by decide) rfl
  have hsep : OrderEntry.IsSeparator " ,".toList :=
    .comma (a := [' ']) (b := []) (List.forall_mem_singleton.mpr rfl) (List.forall_mem_nil _)
  have hdesc : Text.asciiLower "DESC" = SortOrder.desc.text := by decide
  have htext : text (.aggregate (.aggregate .count (.name "*"))) = "COUNT(*)" := rfl
  have hordered : "COUNT(*)" ++ " ," ++ "DESC" = "COUNT(*) ,DESC" := by decide
  have hordered' : "counts" ++ " ," ++ "DESC" = "counts ,DESC" := by decide
  obtain ⟨hread, -, horder⟩ := hcount.reads
  obtain ⟨-, hasc, horder'⟩ := hname.reads
  rw [htext] at hread horder
  refine ⟨⟨hcount, hname, hsep, hdesc⟩, hread, ?_, hasc, ?_⟩
  · rw [← hordered]
    exact horder hsep hdesc
  · rw [← hordered']
    exact horder' hsep hdesc

end Selection

end SearchCompiler
