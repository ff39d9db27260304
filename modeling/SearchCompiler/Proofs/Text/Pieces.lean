import Mathlib.Data.List.Basic
import SearchCompiler.Text.Blank

/-! # Texts in pieces

A text is cut at every character of a class, and its words are what is left of the pieces between
its blanks. Pieces without such characters, joined by them, are what the text is cut into again.

* `Text.splitAtAny_append`, `Text.words_append`: the first piece of a text, and its first word.
* `Text.not_of_mem_splitAtAny`: nothing in a piece is of the class. -/

namespace SearchCompiler.Text

variable {p : Char → Bool} {w cs : List Char} {b : Char}

theorem splitAtAny_eq_splitOnP (p : Char → Bool) (cs : List Char) :
    splitAtAny p cs = cs.splitOnP p := by
  induction cs with
  | nil => rfl
  | cons c cs ih =>
    rw [splitAtAny, ih, List.splitOnP_cons_eq_if_modifyHead]
    cases h : cs.splitOnP p with
    | nil => exact absurd h (List.splitOnP_ne_nil p cs)
    | cons w ws => rfl

theorem splitAtAny_of_forall (hw : ∀ c ∈ w, p c = false) : splitAtAny p w = [w] := by
  rw [splitAtAny_eq_splitOnP, List.splitOnP_eq_singleton hw]

theorem splitAtAny_append (hw : ∀ c ∈ w, p c = false) (hb : p b = true) (cs : List Char) :
    splitAtAny p (w ++ b :: cs) = w :: splitAtAny p cs := by
  rw [splitAtAny_eq_splitOnP, splitAtAny_eq_splitOnP, List.splitOnP_append_cons _ _ hb,
    List.splitOnP_eq_singleton hw, List.singleton_append]

/-- No piece has a character at which the text is cut. -/
theorem not_of_mem_splitAtAny (h : w ∈ splitAtAny p cs) : ∀ c ∈ w, p c = false := by
  induction cs generalizing w with
  | nil =>
    rw [List.mem_singleton.mp h]
    exact List.forall_mem_nil _
  | cons d cs ih =>
    rw [splitAtAny] at h
    split at h
    · rcases List.mem_cons.mp h with rfl | h
      · exact List.forall_mem_nil _
      · exact ih h
    · next hd =>
      have hd : p d = false := by simpa using hd
      split at h
      · rw [List.mem_singleton.mp h]
        exact List.forall_mem_singleton.mpr hd
      · next w' ws hws =>
        rcases List.mem_cons.mp h with rfl | h
        · exact List.forall_mem_cons.mpr ⟨hd, ih (hws ▸ List.mem_cons_self)⟩
        · exact ih (hws ▸ List.mem_cons_of_mem _ h)

/-! ### Words -/

theorem words_eq_filter (cs : List Char) :
    words cs = (splitAtAny isBlank cs).filter fun w => !w.isEmpty := by
  have hgo : words.go cs = splitAtAny isBlank cs := by
    induction cs with
    | nil => rfl
    | cons c cs ih =>
      have hne : splitAtAny isBlank cs ≠ [] :=
        splitAtAny_eq_splitOnP isBlank cs ▸ List.splitOnP_ne_nil isBlank cs
      obtain ⟨w, ws, hws⟩ := List.exists_cons_of_ne_nil hne
      rw [words.go, splitAtAny, ih, hws]
  rw [words, hgo]

theorem words_append (hw : ∀ c ∈ w, isBlank c = false) (hne : w ≠ []) (hb : isBlank b = true) :
    words (w ++ b :: cs) = w :: words cs := by
  rw [words_eq_filter, words_eq_filter, splitAtAny_append hw hb,
    List.filter_cons_of_pos (by simp [hne])]

theorem words_of_not_blank (hw : ∀ c ∈ w, isBlank c = false) (hne : w ≠ []) : words w = [w] := by
  rw [words_eq_filter, splitAtAny_of_forall hw, List.filter_cons_of_pos (by simp [hne]),
    List.filter_nil]

theorem words_blank_append (hw : ∀ c ∈ w, isBlank c = true) : words (w ++ cs) = words cs := by
  induction w with
  | nil => rfl
  | cons c w ih =>
    have hcut : splitAtAny isBlank (c :: (w ++ cs)) = [] :: splitAtAny isBlank (w ++ cs) :=
      splitAtAny_append (List.forall_mem_nil _) (hw c List.mem_cons_self) _
    rw [List.cons_append, words_eq_filter, hcut, List.filter_cons_of_neg (by simp),
      ← words_eq_filter]
    exact ih fun c hc => hw c (List.mem_cons_of_mem _ hc)

end SearchCompiler.Text
