import SearchCompiler.Proofs.Clause.Construct
import SearchCompiler.Proofs.Leaf.Clause
import SearchCompiler.Proofs.Predicate.Condition

/-! # Memberships in text

A membership in text lists its values in brackets, with a comma or a semicolon and any blanks
between each two. Neither can stand in a value, nor can a bracket, and blanks only inside one; such
values are found in the text again, each of them and in order.

* `Membership.valuesOfText_text`: the values that were listed.
* `Membership.compile_read`: from the text to the clause. -/

namespace SearchCompiler

open Grammar Leaf Leaf.Comparison

namespace Membership

/-- A character between two values. -/
def isSeparator (c : Char) : Bool := c == ',' || c == ';'

/-- **A value that can be listed**: there is nothing to trim around it, and it has no bracket, comma
or semicolon. -/
structure IsListed (s : String) : Prop where
  trimmed : Text.trim s = s
  plain : ∀ c ∈ s.toList, isBracket c = false ∧ isSeparator c = false

/-- **What stands between two values**: a comma or a semicolon, with any blanks around it. -/
def IsMark (m : String) : Prop :=
  ∃ a c b, m.toList = a ++ c :: b ∧ isSeparator c = true ∧
    (∀ x ∈ a, Text.isBlank x = true) ∧ ∀ x ∈ b, Text.isBlank x = true

/-- A value and those after it, each with what stands before it. -/
def listing (s : String) : List (String × String) → String
  | [] => s
  | (m, s') :: rest => s ++ m ++ listing s' rest

/-- **The text of a membership.** -/
def text (f s : String) (rest : List (String × String)) : String :=
  f ++ " in (" ++ listing s rest ++ ")"

variable {s : String} {rest : List (String × String)}

theorem isBracket_of_isBlank {c : Char} (h : Text.isBlank c = true) : isBracket c = false := by
  by_contra hc
  simp only [isBracket, Bool.not_eq_false, Bool.or_eq_true, beq_iff_eq] at hc
  rcases hc with ((rfl | rfl) | rfl) | rfl <;> exact absurd h (by decide)

theorem isSeparator_of_isBlank {c : Char} (h : Text.isBlank c = true) : isSeparator c = false := by
  by_contra hc
  simp only [isSeparator, Bool.not_eq_false, Bool.or_eq_true, beq_iff_eq] at hc
  rcases hc with rfl | rfl <;> exact absurd h (by decide)

theorem isBracket_of_isSeparator {c : Char} (h : isSeparator c = true) : isBracket c = false := by
  simp only [isSeparator, Bool.or_eq_true, beq_iff_eq] at h
  rcases h with rfl | rfl <;> rfl

theorem IsMark.isBracket {m : String} (h : IsMark m) : ∀ c ∈ m.toList, isBracket c = false := by
  obtain ⟨a, d, b, hm, hd, ha, hb⟩ := h
  intro c hc
  rw [hm] at hc
  rcases List.mem_append.mp hc with hc | hc
  · exact isBracket_of_isBlank (ha c hc)
  · rcases List.mem_cons.mp hc with rfl | hc
    · exact isBracket_of_isSeparator hd
    · exact isBracket_of_isBlank (hb c hc)

theorem isBracket_listing (hs : IsListed s) (hrest : ∀ e ∈ rest, IsMark e.1 ∧ IsListed e.2) :
    ∀ c ∈ (listing s rest).toList, isBracket c = false := by
  induction rest generalizing s with
  | nil => exact fun c hc => (hs.plain c hc).1
  | cons e rest ih =>
    obtain ⟨⟨hmark, hs'⟩, hrest⟩ := List.forall_mem_cons.mp hrest
    intro c hc
    rw [listing, String.toList_append, String.toList_append] at hc
    rcases List.mem_append.mp hc with hc | hc
    · rcases List.mem_append.mp hc with hc | hc
      · exact (hs.plain c hc).1
      · exact hmark.isBracket c hc
    · exact ih hs' hrest c hc

/-- **A listing is cut into its values.** The induction is on the values to come; the blanks that a
mark leaves in front of the next value go with it. -/
theorem map_splitAtAny_listing {b : List Char} (hb : ∀ c ∈ b, Text.isBlank c = true)
    (hs : IsListed s) (hrest : ∀ e ∈ rest, IsMark e.1 ∧ IsListed e.2) :
    (Text.splitAtAny isSeparator (b ++ (listing s rest).toList)).map
      (fun cs => String.ofList (Text.trimChars cs)) = s :: rest.map (·.2) := by
  have hplain {b : List Char} (hb : ∀ c ∈ b, Text.isBlank c = true) :
      ∀ c ∈ b, isSeparator c = false := fun c hc => isSeparator_of_isBlank (hb c hc)
  have htrim {a b : List Char} (ha : ∀ c ∈ a, Text.isBlank c = true)
      (hb : ∀ c ∈ b, Text.isBlank c = true) {s : String} (hs : IsListed s) :
      String.ofList (Text.trimChars (a ++ s.toList ++ b)) = s := by
    rw [Text.trimChars_append ha hb]
    exact hs.trimmed
  induction rest generalizing b s with
  | nil =>
    have hcut : ∀ c ∈ b ++ s.toList, isSeparator c = false :=
      List.forall_mem_append.mpr ⟨hplain hb, fun c hc => (hs.plain c hc).2⟩
    rw [listing, Text.splitAtAny_of_forall hcut, List.map_singleton,
      ← List.append_nil (b ++ s.toList), htrim hb (List.forall_mem_nil _) hs, List.map_nil]
  | cons e rest ih =>
    obtain ⟨⟨⟨a, c, b', hm, hc, ha, hb'⟩, hs'⟩, hrest⟩ := List.forall_mem_cons.mp hrest
    have hcut : ∀ c ∈ b ++ s.toList ++ a, isSeparator c = false :=
      List.forall_mem_append.mpr ⟨List.forall_mem_append.mpr
        ⟨hplain hb, fun c hc => (hs.plain c hc).2⟩, hplain ha⟩
    have htext : b ++ (listing s (e :: rest)).toList =
        (b ++ s.toList ++ a) ++ c :: (b' ++ (listing e.2 rest).toList) := by
      simp [listing, hm]
    rw [htext, Text.splitAtAny_append hcut hc, List.map_cons, htrim hb ha hs, ih hb' hs' hrest,
      List.map_cons]

/-- The values of a listing in brackets are those that were listed. -/
theorem valuesOfText_listing (hs : IsListed s) (hrest : ∀ e ∈ rest, IsMark e.1 ∧ IsListed e.2) :
    valuesOfText ("(" ++ listing s rest ++ ")") = (s :: rest.map (·.2)).map .str := by
  have hfilter : (("(" ++ listing s rest ++ ")").toList.filter fun c => !isBracket c) =
      (listing s rest).toList := by
    have hkeep : (listing s rest).toList.filter (fun c => !isBracket c) = (listing s rest).toList :=
      List.filter_eq_self.mpr fun c hc => by rw [isBracket_listing hs hrest c hc]; rfl
    rw [String.toList_append, String.toList_append, List.filter_append, List.filter_append, hkeep]
    exact List.append_nil _
  have hcut := map_splitAtAny_listing (List.forall_mem_nil _) hs hrest
  rw [List.nil_append] at hcut
  rw [valuesOfText, hfilter, ← hcut, List.map_map]
  rfl

/-! ### Reading a membership -/

section
variable {f : String} (hne : f ≠ "") (hf : f.toList.all isIdentChar = true)

include hne hf

/-- The text of a membership is read as the comparison of the field with all that is listed. -/
theorem read_text (s : String) (rest : List (String × String)) : Expr.read (text f s rest) =
    .ok (.compare f .isIn (.str ("(" ++ listing s rest ++ ")"))) := by
  have hf : ∀ c ∈ f.toList, isIdentChar c = true := List.all_eq_true.mp hf
  have hne : f.toList ≠ [] := fun h => hne (String.toList_eq_nil_iff.mp h)
  have hvalue : ("(" ++ listing s rest ++ ")").toList =
      '(' :: ((listing s rest).toList ++ [')']) := by simp
  have htext : (text f s rest).toList =
      f.toList ++ ' ' :: ("in".toList ++ ' ' :: ("(" ++ listing s rest ++ ")").toList) := by
    simp [text]
  have hfront : ∀ c ∈ ("(" ++ listing s rest ++ ")").toList.head?, c = '(' := by
    rw [hvalue]
    rintro _ ⟨⟩
    rfl
  have hback : ∀ c ∈ ("(" ++ listing s rest ++ ")").toList.getLast?, Text.isBlank c = false := by
    intro c hc
    rw [hvalue, ← List.cons_append, List.getLast?_concat] at hc
    obtain rfl : ')' = c := Option.some.inj hc
    rfl
  have hnil : ("(" ++ listing s rest ++ ")").toList ≠ [] := hvalue ▸ List.cons_ne_nil _ _
  have hword : IsOperator "in".toList (' ' :: ("(" ++ listing s rest ++ ")").toList) :=
    .word (w := "in") (by decide) ⟨by decide, by rintro _ ⟨⟩; rfl⟩
  have hfits := Condition.Layout.fits_spaced hne hf hword (by rintro _ ⟨⟩; rfl) hnil
    fun c hc => hfront c hc ▸ rfl
  rw [← Condition.trimChars_spaced hne hf hnil hback, ← htext] at hfits
  have hdenotes : Condition.Layout.Denotes
      ⟨f.toList, [' '], "in".toList, [' '], ("(" ++ listing s rest ++ ")").toList⟩
      ⟨f, .isIn, "(" ++ listing s rest ++ ")"⟩ :=
    { field := String.ofList_toList.symm
      op := show Op.read? (String.ofList "in".toList) = some .isIn by decide
      -- the value stands in brackets, so it is in no quotes
      value := by
        rw [Text.trimChars_eq_self (fun c hc => hfront c hc ▸ rfl) hback]
        refine Or.inr ⟨rfl, fun q u hq h => ?_⟩
        have hq' : q = '(' := hfront q (by rw [h]; rfl)
        rcases hq with rfl | rfl <;> exact absurd hq' (by decide) }
  rw [Expr.read, hfits.read_eq_ok_iff.mpr hdenotes]
  rfl

theorem isFieldName_of_ident : isFieldName f = true := by
  have hblank : ∀ c ∈ f.toList, Text.isBlank c = false := fun c hc =>
    isBlank_of_isIdentChar (List.all_eq_true.mp hf c hc)
  rw [isFieldName, Text.trimChars_eq_self (fun c hc => hblank c (List.mem_of_mem_head? hc))
    fun c hc => hblank c (List.mem_of_getLast? hc)]
  simpa using hne

end

theorem compile_compare {v : Version} (hv : v.isSupported = true) {f : String}
    (hf : isFieldName f = true) (x : String) :
    Leaf.compile v (.compare f .isIn (.str x)) = .ok (.clause (.terms
      (Terms.withValues ⟨f, .empty v []⟩ ((valuesOfText x).map Value.toJson))) false) := by
  refine compile_eq_clause_iff.mpr ⟨rfl, .name f, .text x, ⟨.bare f, none, .str x, true⟩, ?_⟩
  refine ⟨by rw [side], by rw [side], rfl, clause_eq_ok_iff.mpr ?_⟩
  refine .terms (Terms.new_eq_ok_iff.mpr ⟨hf, hv, rfl⟩) ?_
  exact Outcome.mapM_eq_ok_iff.mpr
    (List.forall₂_map_right_iff.mpr (List.forall₂_same.mpr fun _ _ => rfl))

/-- **The values of a membership in text** are those of its clause, each as it was written and in the
order of the text. -/
theorem compile_read {v : Version} {f : String} (hv : v.isSupported = true) (hne : f ≠ "")
    (hf : f.toList.all isIdentChar = true) (hs : IsListed s)
    (hrest : ∀ e ∈ rest, IsMark e.1 ∧ IsListed e.2) :
    ∃ e t, Expr.read (text f s rest) = .ok e ∧
      Leaf.compile v e = .ok (.clause (.terms t) false) ∧ t.field = f ∧
      t.values = (s :: rest.map (·.2)).map .str ∧
      t.document = .single "terms" (.single f (.ofStrings (s :: rest.map (·.2)))) := by
  have hvalues : (valuesOfText ("(" ++ listing s rest ++ ")")).map Value.toJson =
      (s :: rest.map (·.2)).map .str := by
    rw [valuesOfText_listing hs hrest, List.map_map]
    rfl
  refine ⟨_, _, read_text hne hf s rest, compile_compare hv (isFieldName_of_ident hne hf) _,
    rfl, ?_, ?_⟩
  · rw [hvalues]
    exact Terms.values_withValues_new
      (Terms.new_eq_ok_iff.mpr ⟨isFieldName_of_ident hne hf, hv, rfl⟩) _
  · rw [hvalues]
    rfl

theorem isMark_comma : IsMark "," :=
  ⟨[], ',', [], by decide, rfl, List.forall_mem_nil _, List.forall_mem_nil _⟩

/-- A field named like a keyword, an empty value at each end, a value with a blank and quotes in it,
and both marks, one of them with a tab and a blank around it. -/
theorem compile_read_quotes :
    (Version.standard.isSupported = true ∧ "in" ≠ "" ∧ "in".toList.all isIdentChar = true ∧
      IsListed "" ∧ ∀ e ∈ [("\t; ", "a 'b'"), (",", "")], IsMark e.1 ∧ IsListed e.2) ∧
    text "in" "" [("\t; ", "a 'b'"), (",", "")] = "in in (\t; a 'b',)" ∧
    ∃ e t, Expr.read (text "in" "" [("\t; ", "a 'b'"), (",", "")]) = .ok e ∧
      Leaf.compile .standard e = .ok (.clause (.terms t) false) ∧ t.field = "in" ∧
      t.values = ["", "a 'b'", ""].map .str ∧
      t.document = .single "terms" (.single "in" (.ofStrings ["", "a 'b'", ""])) := by
  have hempty : IsListed "" := ⟨by decide, List.forall_mem_nil _⟩
  have hplain : ("a 'b'".toList.all fun c => !isBracket c && !isSeparator c) = true := by decide
  have hquotes : IsListed "a 'b'" :=
    ⟨by decide, fun c hc => by simpa using List.all_eq_true.mp hplain c hc⟩
  have hmark : IsMark "\t; " :=
    ⟨['\t'], ';', [' '], by decide, rfl, List.forall_mem_singleton.mpr rfl,
      List.forall_mem_singleton.mpr rfl⟩
  have hrest : ∀ e ∈ [("\t; ", "a 'b'"), (",", "")], IsMark e.1 ∧ IsListed e.2 :=
    List.forall_mem_cons.mpr ⟨⟨hmark, hquotes⟩, List.forall_mem_singleton.mpr ⟨isMark_comma, hempty⟩⟩
  exact ⟨⟨rfl, by decide, by decide, hempty, hrest⟩, by decide,
    compile_read rfl (by decide) (by decide) hempty hrest⟩

end Membership

end SearchCompiler
