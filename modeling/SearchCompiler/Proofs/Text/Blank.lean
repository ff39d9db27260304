import Mathlib.Data.List.Basic
import Mathlib.Data.List.TakeWhile
import SearchCompiler.Text.Blank

/-! # Trimming

* `Text.trimChars_eq_self`, `Text.trimChars_between`: nothing is trimmed.
* `Text.trimChars_append`: blanks at the ends do not count.
* `Text.dropWhile_isBlank_append`: no blank is passed over in front of digits. -/

namespace SearchCompiler.Text

variable {cs ds rest : List Char}

theorem dropWhile_isBlank_eq_self (h : ∀ c ∈ cs.head?, isBlank c = false) :
    cs.dropWhile isBlank = cs := by
  cases cs with
  | nil => rfl
  | cons c cs => exact List.dropWhile_cons_of_neg (by simp [h c rfl])

/-- There is nothing to trim between two ends that are not blank. -/
theorem trimChars_eq_self (hfront : ∀ c ∈ cs.head?, isBlank c = false)
    (hback : ∀ c ∈ cs.getLast?, isBlank c = false) : trimChars cs = cs := by
  have hend : ∀ c ∈ cs.reverse.head?, isBlank c = false := by rwa [List.head?_reverse]
  rw [trimChars, dropWhile_isBlank_eq_self hfront, trimEnd, dropWhile_isBlank_eq_self hend,
    List.reverse_reverse]

theorem trimChars_of_forall (h : ∀ c ∈ cs, isBlank c = false) : trimChars cs = cs :=
  trimChars_eq_self (fun c hc => h c (List.mem_of_mem_head? hc))
    fun c hc => h c (List.mem_of_getLast? hc)

/-- There is nothing to trim around a text that begins and ends with pieces that are not blank. -/
theorem trimChars_between {a b : List Char} (hne : a ≠ []) (hne' : b ≠ [])
    (hfront : ∀ c ∈ a.head?, isBlank c = false) (hback : ∀ c ∈ b.getLast?, isBlank c = false)
    (cs : List Char) : trimChars (a ++ (cs ++ b)) = a ++ (cs ++ b) := by
  refine trimChars_eq_self (fun c hc => hfront c ?_) fun c hc => hback c ?_
  · rwa [List.head?_append_of_ne_nil _ hne] at hc
  · rwa [← List.append_assoc, List.getLast?_append_of_ne_nil _ hne'] at hc

/-- Blanks in front of a text and after it do not count. -/
theorem trimChars_append {a b : List Char} (ha : ∀ c ∈ a, isBlank c = true)
    (hb : ∀ c ∈ b, isBlank c = true) (cs : List Char) : trimChars (a ++ cs ++ b) = trimChars cs := by
  have hend (ds : List Char) : trimEnd (ds ++ b) = trimEnd ds := by
    rw [trimEnd, List.reverse_append,
      List.dropWhile_append_of_pos fun c hc => hb c (List.mem_reverse.mp hc), trimEnd]
  have hblank : b.dropWhile isBlank = [] := List.dropWhile_eq_nil_iff.mpr hb
  rw [trimChars, trimChars, List.append_assoc, List.dropWhile_append_of_pos ha,
    List.dropWhile_append]
  split
  · next hnil => rw [hblank, List.isEmpty_iff.mp hnil]
  · exact hend _

theorem isBlank_of_isDigit {c : Char} (h : c.isDigit = true) : isBlank c = false := by
  obtain ⟨hlow, hhigh⟩ := Char.isDigit_iff_toNat.mp h
  have hlow : 48 ≤ c.toNat := hlow
  have hhigh : c.toNat ≤ 57 := hhigh
  simp only [isBlank, Bool.or_eq_false_iff, Bool.and_eq_false_iff, decide_eq_false_iff_not,
    beq_eq_false_iff_ne]
  omega

/-- No blank is passed over in front of digits. -/
theorem dropWhile_isBlank_append (hne : ds ≠ []) (hd : ∀ c ∈ ds, c.isDigit = true) :
    (ds ++ rest).dropWhile isBlank = ds ++ rest := by
  obtain ⟨d, ds, rfl⟩ := List.exists_cons_of_ne_nil hne
  refine dropWhile_isBlank_eq_self ?_
  rintro _ ⟨⟩
  exact isBlank_of_isDigit (hd d List.mem_cons_self)

end SearchCompiler.Text
