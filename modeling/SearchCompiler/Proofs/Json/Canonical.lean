import SearchCompiler.Json.Reader
import SearchCompiler.Proofs.Assoc.Sorted

/-! # Values read from text

The reader makes a table of the members of every object, so that they are sorted by key whatever
their order in the text. A statement about canonical values is therefore one about all documents that
can be read.

* `Json.canonical_of_read?`: a value read from text is canonical. -/

namespace SearchCompiler.Json

theorem canonicalFields_iff {fs : List (String × Json)} :
    CanonicalFields fs ↔ ∀ e ∈ fs, e.2.Canonical := by
  induction fs with
  | nil => simp [CanonicalFields]
  | cons e fs ih => simp [CanonicalFields, ih]

theorem canonicalItems_iff {items : List Json} :
    CanonicalItems items ↔ ∀ j ∈ items, j.Canonical := by
  induction items with
  | nil => simp [CanonicalItems]
  | cons j items ih => simp [CanonicalItems, ih]

theorem Canonical.sorted {fs : List (String × Json)} (h : (obj fs).Canonical) :
    Assoc.Sorted fs := by
  rw [Canonical] at h
  exact h.1

theorem Canonical.of_mem {fs : List (String × Json)} (h : (obj fs).Canonical)
    {e : String × Json} (he : e ∈ fs) : e.2.Canonical := by
  rw [Canonical] at h
  exact canonicalFields_iff.mp h.2 e he

theorem canonical_mkObj {es : List (String × Json)} (h : ∀ e ∈ es, e.2.Canonical) :
    (mkObj es).Canonical := by
  rw [mkObj, Canonical]
  exact ⟨Assoc.sorted_ofEntries es,
    canonicalFields_iff.mpr fun e he => h e (Assoc.mem_of_mem_ofEntries he)⟩

/-! ### Reading -/

namespace Reader

variable {α β : Type} {fuel : Nat} {P : α → Prop} {Q : β → Prop}

/-- **Whatever the reader takes** off the front of a text has a property. -/
def Ensures (read : Reader α) (P : α → Prop) : Prop :=
  ∀ ⦃cs a rest⦄, read cs = some (a, rest) → P a

theorem Ensures.of_map {read : List Char → Option (α × List Char)} {f : α → β} {cs rest : List Char}
    {b : β} (hr : Ensures read P) (hf : ∀ a, P a → Q (f a))
    (h : (read cs).map (fun p => (f p.1, p.2)) = some (b, rest)) : Q b := by
  obtain ⟨p, hp, h⟩ := Option.map_eq_some_iff.mp h
  rw [← (Prod.mk.inj h).1]
  exact hf p.1 (hr hp)

theorem ensures_sequence {item : Reader α} (hi : item.Ensures P) (close : Char) (fuel : Nat) :
    (sequence item close fuel).Ensures fun as => ∀ a ∈ as, P a := by
  induction fuel with
  | zero => exact fun cs as rest h => nomatch h
  | succ fuel ih =>
    intro cs as rest h
    rw [sequence] at h
    obtain ⟨⟨a, rest'⟩, ha, h⟩ := Option.bind_eq_some_iff.mp h
    have hP : P a := hi ha
    dsimp only at h
    split at h
    · split at h
      · -- a comma, and more items after it
        obtain ⟨⟨as', rest''⟩, has, h⟩ := Option.bind_eq_some_iff.mp h
        cases h
        exact List.forall_mem_cons.mpr ⟨hP, ih has⟩
      · split at h
        · cases h
          exact List.forall_mem_singleton.mpr hP
        · exact nomatch h
    · exact nomatch h

theorem ensures_container {item : Reader α} (hi : item.Ensures P) (close : Char) :
    (container fuel item close).Ensures fun as => ∀ a ∈ as, P a := by
  intro cs as rest h
  unfold container at h
  split at h
  · exact nomatch h
  · split at h
    · cases h
      exact List.forall_mem_nil P
    · exact ensures_sequence hi close fuel h

theorem ensures_member {read : Reader Json} {P : Json → Prop} (hr : read.Ensures P) :
    (member fuel read).Ensures fun e => P e.2 := by
  intro cs e rest h
  obtain ⟨p, -, h⟩ := Option.bind_eq_some_iff.mp h
  dsimp only at h
  split at h
  · obtain ⟨q, hq, h⟩ := Option.bind_eq_some_iff.mp h
    cases h
    exact hr hq
  · exact nomatch h

theorem eq_of_keyword {w cs rest : List Char} {j j' : Json} (h : keyword w j cs = some (j', rest)) :
    j' = j := by
  unfold keyword at h
  split at h
  · exact (Prod.mk.inj (Option.some.inj h)).1.symm
  · exact nomatch h

/-- The reader of values makes canonical ones, by induction on the depth of their containers. -/
theorem ensures_value (depth : Nat) : (value fuel depth).Ensures Canonical := by
  induction depth using Nat.strongRecOn with
  | ind depth ih =>
    intro cs j rest h
    rw [value.eq_def] at h
    dsimp only at h
    split at h
    · simp [eq_of_keyword h, Canonical]
    · simp [eq_of_keyword h, Canonical]
    · simp [eq_of_keyword h, Canonical]
    · obtain ⟨p, -, h⟩ := Option.map_eq_some_iff.mp h
      simp [← (Prod.mk.inj h).1, Canonical]
    · split at h
      · exact nomatch h
      · next d =>
        refine (ensures_container (ih d (Nat.lt_succ_self d)) ']').of_map (fun items hi => ?_) h
        rw [Canonical]
        exact canonicalItems_iff.mpr hi
    · split at h
      · exact nomatch h
      · next d =>
        have hm : (member fuel (value fuel d)).Ensures fun e => e.2.Canonical :=
          ensures_member (ih d (Nat.lt_succ_self d))
        exact (ensures_container hm '\x7d').of_map (fun es he => canonical_mkObj he) h
    · obtain ⟨p, -, h⟩ := Option.map_eq_some_iff.mp h
      simp [← (Prod.mk.inj h).1, Canonical]

end Reader

/-- **A value read from text is canonical.** -/
theorem canonical_of_read? {s : String} {j : Json} (h : read? s = some j) : j.Canonical := by
  unfold read? Reader.whole? at h
  dsimp only at h
  split at h
  · next hr =>
    split at h
    · rw [← Option.some.inj h]
      exact Reader.ensures_value _ hr
    · exact nomatch h
  · exact nomatch h

end SearchCompiler.Json
