import SearchCompiler.Proofs.Text.Blank
import SearchCompiler.Time.Pattern

/-! # Reading numbers that were padded

A number that is padded with zeros to a width is read back: by the readers of a fixed width if the
width can hold it, and as a year after a sign in any case. A pattern is followed item by item; it
fits a text if its items take all of it off, and where one of them stops, or something is left, it
does not.

* `Pattern.small?_padded`, `Pattern.allDigits?_padded`, `Pattern.fraction?_padded`: the readers.
* `Pattern.Takes`, `Pattern.Misses`: items that take a text off, and items that do not fit it.
* `Pattern.read?_eq_none`: a pattern that does not fit reads nothing. -/

namespace SearchCompiler

/-! ### Padded numbers -/

namespace Numeral

variable {width n : Nat}

theorem toList_padded (width n : Nat) : (padded width n).toList =
    List.replicate (width - (Nat.toDigits 10 n).length) '0' ++ Nat.toDigits 10 n := by
  simp [padded]

theorem isDigit_of_mem_padded {c : Char} (h : c ∈ (padded width n).toList) : c.isDigit = true := by
  rw [toList_padded] at h
  rcases List.mem_append.mp h with h | h
  · rw [(List.mem_replicate.mp h).2]
    rfl
  · exact Nat.isDigit_of_mem_toDigits (by decide) (by decide) h

/-- Leading zeros do not count. -/
theorem value_padded (width n : Nat) : value (padded width n).toList = n := by
  have hvalue : ∀ ds, value ds = Nat.ofDigitChars 10 ds 0 := fun _ => rfl
  rw [toList_padded, hvalue, Nat.ofDigitChars_append, Nat.ofDigitChars_replicate_zero,
    Nat.mul_zero, Nat.ofDigitChars_ten_toDigits]

theorem le_length_padded (width n : Nat) : width ≤ (padded width n).toList.length := by
  rw [toList_padded, List.length_append, List.length_replicate]
  omega

theorem padded_ne_nil (hw : 0 < width) : (padded width n).toList ≠ [] := by
  intro h
  have hlength := le_length_padded width n
  rw [h] at hlength
  exact absurd hlength (Nat.not_le.mpr hw)

theorem length_padded (hw : 0 < width) (h : n < Nat.pow 10 width) :
    (padded width n).toList.length = width := by
  have hlength : (Nat.toDigits 10 n).length ≤ width :=
    (Nat.length_toDigits_le_iff (by decide) hw).mpr h
  rw [toList_padded, List.length_append, List.length_replicate]
  omega

end Numeral

namespace Pattern

open Numeral (padded)

variable {width n least most : Nat} {ds rest : List Char}

/-- **Digits up to what is no digit**, or up to the width. -/
theorem digits?_append (hd : ∀ c ∈ ds, c.isDigit = true) (hl : least ≤ ds.length)
    (hm : ds.length ≤ most) (hend : ds.length = most ∨ ∀ c ∈ rest.head?, c.isDigit = false) :
    digits? least most (ds ++ rest) = some (Numeral.value ds, rest) := by
  have hnone : (rest.take (most - ds.length)).takeWhile Char.isDigit = [] := by
    rcases hend with h | h
    · rw [h, Nat.sub_self, List.take_zero, List.takeWhile_nil]
    · cases rest with
      | nil => simp
      | cons c rest =>
        cases most - ds.length with
        | zero => rfl
        | succ k => simp [h c rfl]
  have htaken : ((ds ++ rest).take most).takeWhile Char.isDigit = ds := by
    rw [List.take_append, List.take_of_length_le hm, List.takeWhile_append_of_pos hd, hnone,
      List.append_nil]
  rw [digits?, htaken, if_neg (Nat.not_lt.mpr hl), List.drop_left]

theorem digits?_padded (hw : 0 < width) (hn : n < Nat.pow 10 width) (hl : least ≤ width) :
    digits? least width ((padded width n).toList ++ rest) = some (n, rest) := by
  have hlength := Numeral.length_padded hw hn
  rw [digits?_append (fun c => Numeral.isDigit_of_mem_padded) (hlength.symm ▸ hl)
    (Nat.le_of_eq hlength) (Or.inl hlength), Numeral.value_padded]

variable {lo hi : Nat}

theorem small?_padded (hn : n < 100) (hb : lo ≤ n ∧ n ≤ hi) :
    small? lo hi ((padded 2 n).toList ++ rest) = some (n, rest) := by
  rw [small?, Text.dropWhile_isBlank_append (Numeral.padded_ne_nil (by decide))
    (fun c => Numeral.isDigit_of_mem_padded), digits?_padded (by decide) hn (by decide)]
  exact if_pos hb

theorem digits?_cons_of_not {c : Char} (hc : c.isDigit = false) (hl : 0 < least) :
    digits? least most (c :: rest) = none := by
  have hnone : ((c :: rest).take most).takeWhile Char.isDigit = [] := by
    cases most with
    | zero => rfl
    | succ k => exact List.takeWhile_cons_of_neg (by simp [hc])
  rw [digits?, hnone]
  exact if_pos hl

theorem small?_eq_none (h : ∀ c ∈ rest.head?, Text.isBlank c = false ∧ c.isDigit = false) :
    small? lo hi rest = none := by
  cases rest with
  | nil => rfl
  | cons c rest =>
    obtain ⟨hblank, hdigit⟩ := h c rfl
    rw [small?, List.dropWhile_cons_of_neg (by simp [hblank]),
      digits?_cons_of_not hdigit (by decide)]
    rfl

@[simp] theorem mark?_self (c : Char) (cs : List Char) : mark? c (c :: cs) = some cs := if_pos rfl

theorem year?_minus (cs : List Char) :
    year? ('-' :: cs) = (allDigits? cs).map fun (n, rest) => (-(n : Int), rest) := rfl

theorem year?_plus (cs : List Char) :
    year? ('+' :: cs) = (allDigits? cs).map fun (n, rest) => ((n : Int), rest) := rfl

theorem allDigits?_padded {c : Char} (hw : 0 < width) (hc : c.isDigit = false) :
    allDigits? ((padded width n).toList ++ c :: rest) = some (n, c :: rest) := by
  have hmost : (padded width n).toList.length ≤ ((padded width n).toList ++ c :: rest).length := by
    rw [List.length_append]
    exact Nat.le_add_right _ _
  rw [allDigits?, digits?_append (fun c => Numeral.isDigit_of_mem_padded)
    (Nat.le_trans hw (Numeral.le_length_padded width n)) hmost
    (Or.inr (by rintro _ ⟨⟩; exact hc)), Numeral.value_padded]

theorem exists_year?_signed {c : Char} (hc : c = '-' ∨ c = '+') (hw : 0 < width) (n : Nat)
    (rest : List Char) :
    ∃ y, year? (c :: ((padded width n).toList ++ '-' :: rest)) = some (y, '-' :: rest) := by
  have hall : allDigits? ((padded width n).toList ++ '-' :: rest) = some (n, '-' :: rest) :=
    allDigits?_padded hw rfl
  rcases hc with rfl | rfl
  · exact ⟨-n, by rw [year?_minus, hall, Option.map_some]⟩
  · exact ⟨n, by rw [year?_plus, hall, Option.map_some]⟩

/-- A year without a sign has four digits at most. -/
theorem year?_padded (hn : n ≤ 9999) (rest : List Char) :
    year? ((padded 4 n).toList ++ rest) = some ((n : Int), rest) := by
  have hdigits : digits? 1 4 ((padded 4 n).toList ++ rest) = some (n, rest) :=
    digits?_padded (by decide) (Nat.lt_succ_of_le hn) (by decide)
  have hblank : ((padded 4 n).toList ++ rest).dropWhile Text.isBlank =
      (padded 4 n).toList ++ rest :=
    Text.dropWhile_isBlank_append (Numeral.padded_ne_nil (by decide))
      (fun c => Numeral.isDigit_of_mem_padded)
  obtain ⟨d, ds, hds⟩ := List.exists_cons_of_ne_nil
    (Numeral.padded_ne_nil (n := n) (show 0 < 4 by decide))
  have hd : d.isDigit = true := Numeral.isDigit_of_mem_padded (hds ▸ List.mem_cons_self)
  rw [year?, hblank]
  split
  · next cs hcs =>
    rw [hds] at hcs
    obtain rfl := (List.cons.inj hcs).1
    exact nomatch hd
  · next cs hcs =>
    rw [hds] at hcs
    obtain rfl := (List.cons.inj hcs).1
    exact nomatch hd
  · rw [hdigits, Option.map_some]

/-- A fraction of up to nine digits, up to what is no digit. -/
theorem fraction?_padded (hw : 0 < width) (hw9 : width ≤ 9) (hn : n < Nat.pow 10 width)
    (hend : ∀ c ∈ rest.head?, c.isDigit = false) :
    fraction? ('.' :: ((padded width n).toList ++ rest)) =
      some (n * Nat.pow 10 (9 - width), rest) := by
  have hnone : rest.takeWhile Char.isDigit = [] := by
    cases rest with
    | nil => rfl
    | cons c rest => exact List.takeWhile_cons_of_neg (by simp [hend c rfl])
  have htaken : ((padded width n).toList ++ rest).takeWhile Char.isDigit =
      (padded width n).toList := by
    rw [List.takeWhile_append_of_pos fun c => Numeral.isDigit_of_mem_padded, hnone,
      List.append_nil]
  have hlength : (padded width n).toList.length = width := Numeral.length_padded hw hn
  have hkept : (padded width n).toList.take 9 = (padded width n).toList :=
    List.take_of_length_le (by omega)
  have hne : (padded width n).toList.isEmpty = false :=
    List.isEmpty_eq_false_iff.mpr (Numeral.padded_ne_nil hw)
  have hdrop : ((padded width n).toList ++ rest).drop width = rest := List.drop_left' hlength
  rw [fraction?, nanos?, htaken]
  simp only [hkept, hne, hlength, Numeral.value_padded, hdrop]
  rfl

/-! ### Patterns that do not fit -/

/-- **Items take a text off** in front of what is left, whatever was read before. -/
def Takes (items : List Item) (cs rest : List Char) : Prop :=
  ∀ p, ∃ p', take? items p cs = some (p', rest)

/-- **Items do not fit a text**: they stop inside it, or leave something of it. -/
def Misses (items : List Item) (cs : List Char) : Prop := ∀ p p', take? items p cs ≠ some (p', [])

variable {i : Item} {items items' : List Item} {cs cs' : List Char}

theorem Takes.cons (hi : ∀ p, ∃ p', i.read? p cs = some (p', cs')) (h : Takes items cs' rest) :
    Takes (i :: items) cs rest := by
  intro p
  obtain ⟨p', hp'⟩ := hi p
  obtain ⟨p'', hp''⟩ := h p'
  refine ⟨p'', ?_⟩
  rw [take?, hp', Option.bind_some]
  exact hp''

theorem takes_nil (cs : List Char) : Takes [] cs cs := fun p => ⟨p, rfl⟩

theorem take?_append (items items' : List Item) (p : Parts) (cs : List Char) :
    take? (items ++ items') p cs =
      (take? items p cs).bind fun (p, rest) => take? items' p rest := by
  induction items generalizing p cs with
  | nil => rfl
  | cons i items ih =>
    rw [List.cons_append, take?, take?, Option.bind_assoc]
    exact congrArg _ (funext fun _ => ih _ _)

theorem take?_mark (c : Char) (items : List Item) (p : Parts) (cs : List Char) :
    take? (.mark c :: items) p (c :: cs) = take? items p cs := by
  rw [take?, Item.read?, mark?_self, Option.map_some, Option.bind_some]

theorem Takes.misses (h : Takes items cs rest) (h' : Misses items' rest) :
    Misses (items ++ items') cs := by
  intro p p'
  obtain ⟨q, hq⟩ := h p
  rw [take?_append, hq]
  exact h' q p'

theorem misses_of_stop (h : ∀ p, i.read? p cs = none) : Misses (i :: items) cs := by
  intro p p'
  rw [take?, h p]
  exact nofun

theorem misses_nil (c : Char) (cs : List Char) : Misses [] (c :: cs) := fun _ _ h =>
  nomatch (Prod.mk.inj (Option.some.inj h)).2

theorem Takes.misses_self {c : Char} (h : Takes items cs (c :: rest)) : Misses items cs := by
  rw [← List.append_nil items]
  exact h.misses (misses_nil c rest)

theorem read?_eq_none (h : Misses items cs) : read? items cs = none := by
  rw [read?]
  cases ht : take? items {} cs with
  | none => rfl
  | some q =>
    obtain ⟨p, rest⟩ := q
    have hne : rest ≠ [] := fun hrest => h {} p (hrest ▸ ht)
    exact if_neg (by simpa using hne)

/-- Patterns that do not fit read nothing, whatever is made of what they read. -/
theorem findSome?_eq_none {α : Type} {f : Parts → Option α} {ps : List (List Item)}
    (h : ∀ p ∈ ps, Misses p cs) : (ps.findSome? fun p => (read? p cs).bind f) = none := by
  refine List.findSome?_eq_none_iff.mpr fun p hp => ?_
  rw [read?_eq_none (h p hp), Option.bind_none]

/-- The numbers of one or two digits, with their bounds. -/
inductive IsSmall : Item → Nat → Nat → Prop
  | month : IsSmall .month 1 12
  | day : IsSmall .day 1 31
  | hour : IsSmall .hour 0 23
  | minute : IsSmall .minute 0 59
  | second : IsSmall .second 0 60

theorem IsSmall.exists_read? (h : IsSmall i lo hi) (p : Parts) (cs : List Char) :
    ∃ f : Nat → Parts, i.read? p cs = (small? lo hi cs).map fun (n, rest) => (f n, rest) := by
  cases h with
  | month => exact ⟨fun n => { p with month := n }, rfl⟩
  | day => exact ⟨fun n => { p with day := n }, rfl⟩
  | hour => exact ⟨fun n => { p with hour := n }, rfl⟩
  | minute => exact ⟨fun n => { p with minute := n }, rfl⟩
  | second => exact ⟨fun n => { p with second := n }, rfl⟩

theorem misses_small (hs : IsSmall i lo hi)
    (h : ∀ c ∈ cs.head?, Text.isBlank c = false ∧ c.isDigit = false) :
    Misses (i :: items) cs := by
  refine misses_of_stop fun p => ?_
  obtain ⟨f, hf⟩ := hs.exists_read? p cs
  rw [hf, small?_eq_none h, Option.map_none]

theorem misses_gap (hs : IsSmall i lo hi)
    (h : ∀ c ∈ cs.head?, Text.isBlank c = false ∧ c.isDigit = false) :
    Misses (.gap :: i :: items) cs := by
  have hgap : Takes [.gap] cs cs := fun p => by
    have hblank := Text.dropWhile_isBlank_eq_self fun c hc => (h c hc).1
    exact ⟨p, by rw [take?, Item.read?, hblank]; rfl⟩
  exact hgap.misses (misses_small hs h)

/-- The first two of more digits are not followed by a mark. -/
theorem misses_smallMark {m : Char} (hs : IsSmall i lo hi) (hd : ∀ c ∈ ds, c.isDigit = true)
    (hl : 2 < ds.length) (hm : m.isDigit = false) :
    Misses (i :: .mark m :: items) (ds ++ cs) := by
  have hsplit : ds = ds.take 2 ++ ds.drop 2 := (List.take_append_drop 2 ds).symm
  obtain ⟨c, ds', hrest⟩ : ∃ c ds', ds.drop 2 = c :: ds' :=
    List.exists_cons_of_ne_nil (List.ne_nil_of_length_pos (by rw [List.length_drop]; omega))
  have hsmall : ∀ n rest, small? lo hi (ds ++ cs) = some (n, rest) → rest = c :: (ds' ++ cs) := by
    intro n rest h
    have htwo : (ds.take 2).length = 2 := List.length_take_of_le (Nat.le_of_lt hl)
    rw [small?, Text.dropWhile_isBlank_append (List.ne_nil_of_length_pos (by omega)) hd, hsplit,
      List.append_assoc, digits?_append (fun d hd' => hd d (List.mem_of_mem_take hd')) (by omega)
      (by omega) (Or.inl htwo), Option.bind_some, hrest] at h
    obtain ⟨-, h⟩ := Option.ite_none_right_eq_some.mp h
    exact (Prod.mk.inj (Option.some.inj h)).2.symm
  have hc : c ≠ m := by
    rintro rfl
    have hdigit : c.isDigit = true := hd c (List.mem_of_mem_drop (hrest ▸ List.mem_cons_self))
    exact absurd hdigit (by simp [hm])
  intro p p'
  obtain ⟨f, hf⟩ := hs.exists_read? p (ds ++ cs)
  rw [take?, hf]
  cases hn : small? lo hi (ds ++ cs) with
  | none => exact nofun
  | some q =>
    obtain ⟨n, rest⟩ := q
    obtain rfl := hsmall n rest hn
    simp only [Option.map_some, Option.bind_some, take?, Item.read?, mark?, if_neg hc]
    exact nofun

theorem misses_mark {c d : Char} (hne : d ≠ c) : Misses (.mark c :: items) (d :: cs) :=
  misses_of_stop fun p => by rw [Item.read?, mark?, if_neg hne, Option.map_none]

theorem Takes.year {y : Int} (hy : year? cs = some (y, cs')) (h : Takes items cs' rest) :
    Takes (.year :: items) cs rest :=
  .cons (fun p => ⟨_, by rw [Item.read?, hy, Option.map_some]⟩) h

theorem Takes.mark {c : Char} (h : Takes items cs rest) :
    Takes (.mark c :: items) (c :: cs) rest := by
  intro p
  obtain ⟨p', hp'⟩ := h p
  exact ⟨p', (take?_mark c items p cs).trans hp'⟩

end Pattern

end SearchCompiler
