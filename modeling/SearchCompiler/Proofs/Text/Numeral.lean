import SearchCompiler.Proofs.Decimal.Sign

/-! # The texts of integers

The text of an integer is a run of digits with at most one sign in front of it, and nothing else is
read as an integer.

* `Numeral.IsDigits`, `Numeral.readNat?_eq_some_iff_isDigits`: the runs of digits.
* `Numeral.IsNumeral`, `Numeral.readInt?_eq_some_iff`: the texts of integers. -/

namespace SearchCompiler

namespace Numeral

/-- A run of digits. -/
def IsDigits (ds : List Char) : Prop := ds ≠ [] ∧ ∀ c ∈ ds, c.isDigit = true

/-- **The text of an integer**: digits, which may have a sign before them. -/
inductive IsNumeral : List Char → Int → Prop
  | plain {ds : List Char} (h : IsDigits ds) : IsNumeral ds (value ds)
  | plus {ds : List Char} (h : IsDigits ds) : IsNumeral ('+' :: ds) (value ds)
  | minus {ds : List Char} (h : IsDigits ds) : IsNumeral ('-' :: ds) (-(value ds : Int))

variable {ds cs : List Char} {n : Int}

theorem value_eq_ofDigitChars (ds : List Char) : value ds = Nat.ofDigitChars 10 ds 0 := rfl

theorem readNat?_eq_some_iff_isDigits {n : Nat} :
    readNat? ds = some n ↔ IsDigits ds ∧ value ds = n := by
  rw [readNat?_eq_some_iff, List.all_eq_true, IsDigits, and_assoc]

theorem IsDigits.readNat? (h : IsDigits ds) : readNat? ds = some (value ds) :=
  readNat?_eq_some_iff_isDigits.mpr ⟨h, rfl⟩

theorem IsDigits.ne_sign (h : IsDigits ds) {c : Char} (hc : c.isDigit = false) (r : List Char) :
    ds ≠ c :: r := by
  rintro rfl
  exact absurd (h.2 c List.mem_cons_self) (by simp [hc])

theorem readInt?_eq_some_iff : readInt? cs = some n ↔ IsNumeral cs n := by
  constructor
  · intro h
    obtain ⟨ds, m, hm, hsign⟩ := Decimal.exists_of_readInt? h
    obtain ⟨hds, rfl⟩ := readNat?_eq_some_iff_isDigits.mp hm
    rcases hsign with ⟨rfl, rfl⟩ | ⟨rfl, rfl | ⟨rfl, -, -⟩⟩
    · exact .minus hds
    · exact .plus hds
    · exact .plain hds
  · intro h
    cases h with
    | plus h => rw [readInt?, h.readNat?]; rfl
    | minus h => rw [readInt?, h.readNat?]; rfl
    | plain h =>
      rw [readInt?, h.readNat?]
      · rfl
      · exact h.ne_sign (by decide)
      · exact h.ne_sign (by decide)

theorem readInt32?_eq_some_iff {x : Int32} : readInt32? cs = some x ↔ IsNumeral cs x.toInt := by
  rw [readInt32?, Option.bind_eq_some_iff]
  simp only [readInt?_eq_some_iff]
  constructor
  · rintro ⟨k, hk, h⟩
    split at h
    · next hrange =>
      obtain rfl := Option.some.inj h
      rwa [Int32.toInt_ofInt_of_le hrange.1 hrange.2]
    · exact nomatch h
  · intro hx
    refine ⟨x.toInt, hx, ?_⟩
    rw [if_pos ⟨x.le_toInt, x.toInt_lt⟩, Int32.ofInt_toInt]

theorem IsNumeral.mem (h : IsNumeral cs n) {c : Char} (hc : c ∈ cs) :
    c.isDigit = true ∨ c = '+' ∨ c = '-' := by
  cases h with
  | plain h => exact Or.inl (h.2 c hc)
  | plus h =>
    rcases List.mem_cons.mp hc with hc | hc
    · exact Or.inr (Or.inl hc)
    · exact Or.inl (h.2 c hc)
  | minus h =>
    rcases List.mem_cons.mp hc with hc | hc
    · exact Or.inr (Or.inr hc)
    · exact Or.inl (h.2 c hc)

theorem IsNumeral.colon_not_mem (h : IsNumeral cs n) : ':' ∉ cs := fun hc => by
  rcases h.mem hc with h | h | h <;> exact absurd h (by decide)

/-- A numeral without a sign is a run of digits. -/
theorem IsNumeral.digits (h : IsNumeral cs n) (hplus : '+' ∉ cs) (hminus : '-' ∉ cs) :
    IsDigits cs ∧ n = value cs := by
  cases h with
  | plain h => exact ⟨h, rfl⟩
  | plus h => exact absurd List.mem_cons_self hplus
  | minus h => exact absurd List.mem_cons_self hminus

end Numeral

end SearchCompiler
