import SearchCompiler.Proofs.Predicate.Operator
import SearchCompiler.Proofs.Text.Blank

/-! # Conditions in text

A text is a condition iff it can be laid out as a field, an operator and a value with gaps between
them, each piece as long as it can be; no text can be laid out in two ways. A condition whose value
stands in quotes is read as the condition itself, whatever its value holds.

* `Condition.Layout.Fits`: the grammar of conditions.
* `Condition.read_iff_layout`: reading accepts exactly the texts of the grammar.
* `Expr.read_quotedText`: reading what was written. -/

namespace SearchCompiler

open Grammar

namespace Grammar

/-- **A text and what is left of it without one pair of equal quotes around it.** A text without
such a pair stays as it is. -/
def Unquotes (t v : List Char) : Prop :=
  (∃ q, (q = '\'' ∨ q = '"') ∧ t = q :: (v ++ [q])) ∨
    v = t ∧ ∀ q u, q = '\'' ∨ q = '"' → t ≠ q :: (u ++ [q])

theorem unquote_quoted {q : Char} (hq : q = '\'' ∨ q = '"') (v : List Char) :
    unquote (q :: (v ++ [q])) = v := by
  rw [unquote, if_pos ⟨hq, List.getLast?_concat⟩, List.dropLast_concat]

theorem unquote_of_forall_ne {t : List Char}
    (h : ∀ q u, q = '\'' ∨ q = '"' → t ≠ q :: (u ++ [q])) : unquote t = t := by
  cases t with
  | nil => rfl
  | cons q rest =>
    rw [unquote, if_neg]
    rintro ⟨hq, hlast⟩
    exact h q rest.dropLast hq (by rw [List.dropLast_append_getLast? _ hlast])

theorem unquotes_iff {t v : List Char} : Unquotes t v ↔ unquote t = v := by
  constructor
  · rintro (⟨q, hq, rfl⟩ | ⟨rfl, h⟩)
    · exact unquote_quoted hq v
    · exact unquote_of_forall_ne h
  · rintro rfl
    by_cases h : ∃ q u, (q = '\'' ∨ q = '"') ∧ t = q :: (u ++ [q])
    · obtain ⟨q, u, hq, rfl⟩ := h
      exact Or.inl ⟨q, hq, by rw [unquote_quoted hq]⟩
    · have hne : ∀ q u, q = '\'' ∨ q = '"' → t ≠ q :: (u ++ [q]) :=
        fun q u hq ht => h ⟨q, u, hq, ht⟩
      exact Or.inr ⟨unquote_of_forall_ne hne, hne⟩

end Grammar

namespace Condition

/-- **The pieces of a condition**, one after the other. -/
structure Layout where
  field : List Char
  gap : List Char
  operator : List Char
  gap' : List Char
  value : List Char

namespace Layout

/-- **A text is laid out** in pieces that each go on as far as they can. -/
structure Fits (l : Layout) (cs : List Char) : Prop where
  text : cs = l.field ++ (l.gap ++ (l.operator ++ (l.gap' ++ l.value)))
  field_ne : l.field ≠ []
  field : IsRun isIdentChar l.field (l.gap ++ (l.operator ++ (l.gap' ++ l.value)))
  gap : IsRun isGap l.gap (l.operator ++ (l.gap' ++ l.value))
  operator : IsOperator l.operator (l.gap' ++ l.value)
  gap' : IsRun isGap l.gap' l.value
  value_ne : l.value ≠ []

/-- **The condition that a layout denotes.** -/
structure Denotes (l : Layout) (c : Condition) : Prop where
  field : c.field = String.ofList l.field
  op : Op.read? (String.ofList l.operator) = some c.op
  value : Unquotes (Text.trimChars l.value) c.value.toList

variable {l l' : Layout} {cs : List Char}

/-- A text that is laid out is read piece by piece. -/
theorem Fits.parts (h : l.Fits cs) : ∃ op, Op.read? (String.ofList l.operator) = some op ∧
    parts cs = .ok ((l.field, op), l.value) := by
  obtain ⟨op, hread, hop⟩ := comparator_of_isOperator h.operator
  refine ⟨op, hread, ?_⟩
  rw [Condition.parts, ident_eq_ok_iff.mpr ⟨h.field_ne, h.text, h.field⟩]
  simp only [skip, h.gap.dropWhile, hop, h.gap'.dropWhile]
  obtain ⟨c, value, hvalue⟩ := List.exists_cons_of_ne_nil h.value_ne
  rw [hvalue]

/-- What is read piece by piece is laid out. -/
theorem exists_fits_of_parts {r : (List Char × Op) × List Char} (h : Condition.parts cs = .ok r) :
    ∃ l : Layout, l.Fits cs := by
  unfold Condition.parts at h
  split at h
  · exact nomatch h
  · next f rest hf =>
    obtain ⟨hne, htext, hfield⟩ := ident_eq_ok_iff.mp hf
    split at h
    · exact nomatch h
    · next op after hop =>
      obtain ⟨o, hskip, ho⟩ := exists_isOperator_of_comparator hop
      have hgap := isRun_takeWhile isGap rest
      have hgap' := isRun_takeWhile isGap after
      have hrest : rest = rest.takeWhile isGap ++ (o ++ after) := by
        rw [← hskip]
        exact List.takeWhile_append_dropWhile.symm
      have hafter : after = after.takeWhile isGap ++ skip after :=
        List.takeWhile_append_dropWhile.symm
      rw [show rest.dropWhile isGap = o ++ after from hskip] at hgap
      refine ⟨⟨f, rest.takeWhile isGap, o, after.takeWhile isGap, skip after⟩, ?_, hne, ?_, ?_, ?_,
        hgap', ?_⟩
      · rw [← hafter, ← hrest, htext]
      · rwa [← hafter, ← hrest]
      · rwa [← hafter]
      · rwa [← hafter]
      · intro hnil
        simp only at hnil
        rw [hnil] at h
        exact nomatch h

/-- **A text is laid out in one way only.** -/
theorem Fits.unique (h : l.Fits cs) (h' : l'.Fits cs) : l = l' := by
  obtain ⟨hfield, hrest⟩ := h.field.unique h'.field (h.text.symm.trans h'.text)
  obtain ⟨hgap, hrest⟩ := h.gap.unique h'.gap hrest
  obtain ⟨op, -, hop⟩ := comparator_of_isOperator h.operator
  obtain ⟨op', -, hop'⟩ := comparator_of_isOperator h'.operator
  have hafter : l.gap' ++ l.value = l'.gap' ++ l'.value := by
    rw [hrest] at hop
    exact congrArg Prod.snd (Except.ok.inj (hop.symm.trans hop'))
  have hoperator : l.operator = l'.operator := by
    rw [hafter] at hrest
    exact List.append_cancel_right hrest
  obtain ⟨hgap', hvalue⟩ := h.gap'.unique h'.gap' hafter
  cases l
  cases l'
  simp_all

theorem Fits.read_eq_ok_iff {s : String} {c : Condition} (h : l.Fits (Text.trimChars s.toList)) :
    read s = .ok c ↔ l.Denotes c := by
  obtain ⟨op, hop, hparts⟩ := h.parts
  rw [read, hparts]
  simp only [Except.ok.injEq]
  constructor
  · rintro rfl
    exact ⟨rfl, hop, unquotes_iff.mpr (String.toList_ofList).symm⟩
  · rintro ⟨hf, hop', hv⟩
    obtain ⟨f, o, v⟩ := c
    obtain rfl : f = String.ofList l.field := hf
    obtain rfl : op = o := Option.some.inj (hop.symm.trans hop')
    rw [unquotes_iff.mp hv, String.ofList_toList]

end Layout

/-- **Reading accepts exactly the texts that can be laid out**, and it gives the condition that the
only layout denotes; any other text is malformed. -/
theorem read_iff_layout (s : String) :
    (∀ c, read s = .ok c ↔
      ∃ l : Layout, (∀ l' : Layout, l'.Fits (Text.trimChars s.toList) ↔ l' = l) ∧ l.Denotes c) ∧
    ((∃ column, read s = .error (.malformed s column)) ↔
      ∀ l : Layout, ¬ l.Fits (Text.trimChars s.toList)) := by
  by_cases h : ∃ l : Layout, l.Fits (Text.trimChars s.toList)
  · obtain ⟨l, hl⟩ := h
    have honly : ∀ l' : Layout, l'.Fits (Text.trimChars s.toList) ↔ l' = l := fun l' =>
      ⟨fun h' => h'.unique hl, fun heq => heq ▸ hl⟩
    refine ⟨fun c => hl.read_eq_ok_iff.trans ⟨fun hc => ⟨l, honly, hc⟩, ?_⟩, ?_⟩
    · rintro ⟨l', h', hc⟩
      rwa [(h' l).mp hl]
    · refine iff_of_false ?_ fun hno => hno l hl
      rintro ⟨column, hread⟩
      obtain ⟨op, -, hparts⟩ := hl.parts
      rw [read, hparts] at hread
      exact nomatch hread
  · have hno : ∀ l : Layout, ¬ l.Fits (Text.trimChars s.toList) := fun l hl => h ⟨l, hl⟩
    cases hparts : parts (Text.trimChars s.toList) with
    | ok r => exact absurd (Layout.exists_fits_of_parts hparts) h
    | error left =>
      have hread : read s = .error (.malformed s (column (Text.trimChars s.toList) left)) := by
        rw [read, hparts]
      refine ⟨fun c => iff_of_false (fun hok => ?_) ?_, iff_of_true ⟨_, hread⟩ hno⟩
      · rw [hread] at hok
        exact nomatch hok
      · rintro ⟨l, hl, -⟩
        exact hno l ((hl l).mpr rfl)

/-- A keyword ends where no letter follows it. -/
example : read "index inside 3" = .error (.malformed "index inside 3" 7) := by decide

/-! ### Writing a condition -/

/-- The text of a condition with its value in quotes. -/
def quotedText (c : Condition) (q : Char) : String :=
  c.field ++ " " ++ c.op.text ++ " " ++ String.singleton q ++ c.value ++ String.singleton q

theorem toList_quotedText (c : Condition) (q : Char) : (c.quotedText q).toList =
    c.field.toList ++ (' ' :: (c.op.text.toList ++ ' ' :: (q :: (c.value.toList ++ [q])))) := by
  simp [quotedText]

/-- The written form of a comparison is an operator wherever a blank follows it. -/
theorem isOperator_text {op : Op} (hop : op.cls = .relational) (rest : List Char) :
    IsOperator op.text.toList (' ' :: rest) := by
  have htext : comparator (op.text.toList ++ ' ' :: rest) = .ok (op, ' ' :: rest) := by
    cases op <;> first | rfl | exact absurd hop (by decide)
  obtain ⟨o, heq, ho⟩ := exists_isOperator_of_comparator htext
  rwa [List.append_cancel_right heq]

theorem read?_text (op : Op) : Op.read? op.text = some op := by
  cases op <;> rfl

theorem isGap_blank : ∀ a ∈ [' '], isGap a = true := List.forall_mem_singleton.mpr rfl

section
variable {f o v : List Char}

theorem Layout.fits_spaced (hne : f ≠ []) (hf : ∀ c ∈ f, isIdentChar c = true)
    (ho : IsOperator o (' ' :: v)) (hstart : ∀ c ∈ (o ++ ' ' :: v).head?, isGap c = false)
    (hv : v ≠ []) (hfront : ∀ c ∈ v.head?, isGap c = false) :
    Layout.Fits ⟨f, [' '], o, [' '], v⟩ (f ++ ' ' :: (o ++ ' ' :: v)) where
  text := rfl
  field_ne := hne
  field := ⟨hf, by rintro _ ⟨⟩; rfl⟩
  gap := ⟨isGap_blank, hstart⟩
  operator := ho
  gap' := ⟨isGap_blank, hfront⟩
  value_ne := hv

theorem trimChars_spaced (hne : f ≠ []) (hf : ∀ c ∈ f, isIdentChar c = true) (hv : v ≠ [])
    (hback : ∀ c ∈ v.getLast?, Text.isBlank c = false) :
    Text.trimChars (f ++ ' ' :: (o ++ ' ' :: v)) = f ++ ' ' :: (o ++ ' ' :: v) := by
  have hfront : ∀ c ∈ f.head?, Text.isBlank c = false := fun c hc =>
    isBlank_of_isIdentChar (hf c (List.mem_of_mem_head? hc))
  have hpieces : f ++ ' ' :: (o ++ ' ' :: v) = f ++ ((' ' :: (o ++ [' '])) ++ v) := by simp
  rw [hpieces]
  exact Text.trimChars_between hne hv hfront hback _

end

variable {c : Condition} {q : Char}

/-- The layout of a condition with its value in quotes. -/
def quotedLayout (c : Condition) (q : Char) : Layout :=
  ⟨c.field.toList, [' '], c.op.text.toList, [' '], q :: (c.value.toList ++ [q])⟩

theorem isBlank_quote (hq : q = '\'' ∨ q = '"') : Text.isBlank q = false := by
  rcases hq with rfl | rfl <;> rfl

theorem isGap_quote (hq : q = '\'' ∨ q = '"') : isGap q = false := by
  rcases hq with rfl | rfl <;> rfl

theorem fits_quotedLayout (hne : c.field ≠ "") (hfield : c.field.toList.all isIdentChar = true)
    (hop : c.op.cls = .relational) (hq : q = '\'' ∨ q = '"') :
    (c.quotedLayout q).Fits (c.quotedText q).toList := by
  rw [toList_quotedText]
  refine Layout.fits_spaced (fun h => hne (String.toList_eq_nil_iff.mp h))
    (List.all_eq_true.mp hfield) (isOperator_text hop _) ?_ (List.cons_ne_nil _ _) ?_
  · cases c.op <;> rintro _ ⟨⟩ <;> rfl
  · rintro _ ⟨⟩
    exact isGap_quote hq

theorem getLast?_quoted (hq : q = '\'' ∨ q = '"') (v : List Char) :
    ∀ a ∈ (q :: (v ++ [q])).getLast?, Text.isBlank a = false := by
  intro a ha
  rw [← List.cons_append, List.getLast?_concat] at ha
  rw [← Option.some.inj ha]
  exact isBlank_quote hq

theorem trimChars_quoted (hq : q = '\'' ∨ q = '"') (v : List Char) :
    Text.trimChars (q :: (v ++ [q])) = q :: (v ++ [q]) :=
  Text.trimChars_eq_self (by rintro _ ⟨⟩; exact isBlank_quote hq) (getLast?_quoted hq v)

theorem denotes_quotedLayout (hq : q = '\'' ∨ q = '"') : (c.quotedLayout q).Denotes c where
  field := String.ofList_toList.symm
  op := by rw [quotedLayout, String.ofList_toList, read?_text]
  value := Or.inl ⟨q, hq, trimChars_quoted hq c.value.toList⟩

theorem trimChars_quotedText (hne : c.field ≠ "") (hfield : c.field.toList.all isIdentChar = true)
    (hq : q = '\'' ∨ q = '"') :
    Text.trimChars (c.quotedText q).toList = (c.quotedText q).toList := by
  rw [toList_quotedText]
  exact trimChars_spaced (fun h => hne (String.toList_eq_nil_iff.mp h))
    (List.all_eq_true.mp hfield) (List.cons_ne_nil _ _) (getLast?_quoted hq _)

end Condition

/-- **A condition with its value in quotes is read as the comparison it was written from**, whatever
stands between the quotes. -/
theorem Expr.read_quotedText {f : String} {op : Op} {q : Char} (v : String) (hne : f ≠ "")
    (hf : f.toList.all isIdentChar = true) (hop : op.cls = .relational)
    (hq : q = '\'' ∨ q = '"') :
    Expr.read (Condition.quotedText ⟨f, op, v⟩ q) = .ok (.compare f op (.str v)) := by
  have hfits := Condition.fits_quotedLayout (c := ⟨f, op, v⟩) hne hf hop hq
  rw [← Condition.trimChars_quotedText hne hf hq] at hfits
  rw [Expr.read, hfits.read_eq_ok_iff.mpr (Condition.denotes_quotedLayout hq)]
  rfl

/-- A field named like a keyword, an operator of two words, and a value with blanks at its ends and
quotes and operators inside. -/
theorem Expr.read_quotedText_nested :
    ("in" ≠ "" ∧ "in".toList.all isIdentChar = true ∧ Op.notLike.cls = .relational) ∧
      Condition.quotedText ⟨"in", .notLike, " it's = \"x\" \n"⟩ '\'' =
        "in NOT LIKE ' it's = \"x\" \n'" ∧
      Expr.read (Condition.quotedText ⟨"in", .notLike, " it's = \"x\" \n"⟩ '\'') =
        .ok (.compare "in" .notLike (.str " it's = \"x\" \n")) :=
  ⟨⟨by decide, by decide, rfl⟩, by decide,
    read_quotedText " it's = \"x\" \n" (by decide) (by decide) rfl (Or.inl rfl)⟩

end SearchCompiler
