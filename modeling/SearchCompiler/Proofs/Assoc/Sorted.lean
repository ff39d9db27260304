import Mathlib.Data.List.Nodup
import SearchCompiler.Assoc

/-! # Sorted tables

A table that is sorted by key is known by its view: its entries are what can be looked up in it, and
two such tables with the same view are the same list. Inserting entries in increasing order builds
the list itself.

* `Sorted.ext`: equal views, equal tables.
* `ofEntries_of_sorted`: a sorted list of entries is the table it makes.
* `mem_ofEntries_iff`: the table of a list of entries that do not replace each other. -/

namespace SearchCompiler.Assoc

variable {α : Type} {k : String} {v : α} {s t : Assoc α}

theorem mem_of_get? (h : get? k t = some v) : (k, v) ∈ t := by
  induction t with
  | nil => simp at h
  | cons e rest ih =>
    obtain ⟨k', v'⟩ := e
    rw [get?_cons] at h
    split at h
    · next hk => rw [hk, ← Option.some.inj h]; exact List.mem_cons_self
    · exact List.mem_cons_of_mem _ (ih h)

theorem get?_eq_none_of_forall_ne (h : ∀ e ∈ t, e.1 ≠ k) : get? k t = none := by
  induction t with
  | nil => rfl
  | cons e rest ih =>
    obtain ⟨k', v'⟩ := e
    have hk : k ≠ k' := (h _ List.mem_cons_self).symm
    rw [get?_cons, if_neg hk]
    exact ih fun e he => h e (List.mem_cons_of_mem _ he)

theorem isSome_get?_iff : (get? k t).isSome = true ↔ k ∈ t.keys := by
  induction t with
  | nil => simp [keys]
  | cons e rest ih =>
    obtain ⟨k', v'⟩ := e
    rw [get?_cons, keys, List.map_cons, List.mem_cons, ← keys, ← ih]
    by_cases hk : k = k' <;> simp [hk]

theorem erase_eq_self (h : get? k t = none) : erase k t = t := by
  refine List.filter_eq_self.mpr fun e he => bne_iff_ne.mpr fun hk => ?_
  have hmem : k ∈ t.keys := hk ▸ List.mem_map_of_mem he
  rw [← isSome_get?_iff, h] at hmem
  exact Bool.false_ne_true hmem

theorem insert_insert_self (k : String) (v v' : α) (t : Assoc α) :
    insert k v (insert k v' t) = insert k v t := by
  fun_induction insert k v' t with
  | case1 => simp [insert]
  | case2 k' w rest hlt => simp [insert, hlt]
  | case3 w rest hlt => simp [insert]
  | case4 k' w rest hlt hne ih => simp [insert, hlt, hne, ih]

theorem erase_insert_self (k : String) (v : α) (t : Assoc α) :
    erase k (insert k v t) = erase k t := by
  fun_induction insert k v t with
  | case1 => simp [erase]
  | case2 => simp [erase]
  | case3 => simp [erase]
  | case4 k' w rest hlt hne ih =>
    unfold erase at ih ⊢
    rw [List.filter_cons, List.filter_cons, ih]

theorem mem_of_mem_insert {e : String × α} (h : e ∈ insert k v t) : e = (k, v) ∨ e ∈ t := by
  fun_induction insert k v t with
  | case1 => exact Or.inl (List.mem_singleton.mp h)
  | case2 => exact List.mem_cons.mp h
  | case3 => exact (List.mem_cons.mp h).imp id (List.mem_cons_of_mem _)
  | case4 k' v' rest _ _ ih =>
    rcases List.mem_cons.mp h with h | h
    · exact Or.inr (h ▸ List.mem_cons_self)
    · exact (ih h).imp id (List.mem_cons_of_mem _)

namespace Sorted

theorem tail {e : String × α} (h : Sorted (e :: t)) : Sorted t := (List.pairwise_cons.mp h).2

theorem head_ne {e e' : String × α} (h : Sorted (e :: t)) (he : e' ∈ t) : e'.1 ≠ e.1 := by
  have hlt : e.1 < e'.1 := (List.pairwise_cons.mp h).1 e' he
  intro heq
  rw [heq] at hlt
  exact String.lt_irrefl _ hlt

theorem get?_of_mem (h : Sorted t) (he : (k, v) ∈ t) : get? k t = some v := by
  induction t with
  | nil => simp at he
  | cons e rest ih =>
    obtain ⟨k', v'⟩ := e
    rw [get?_cons]
    rcases List.mem_cons.mp he with heq | he
    · cases heq
      exact if_pos rfl
    · rw [if_neg (h.head_ne he)]
      exact ih h.tail he

/-- The entries of a sorted table are what can be looked up in it. -/
theorem mem_iff (h : Sorted t) : (k, v) ∈ t ↔ get? k t = some v := ⟨h.get?_of_mem, mem_of_get?⟩

theorem mem_insert_iff (h : Sorted t) {e : String × α} :
    e ∈ Assoc.insert k v t ↔ e = (k, v) ∨ e.1 ≠ k ∧ e ∈ t := by
  obtain ⟨k', v'⟩ := e
  rw [(h.insert k v).mem_iff, h.mem_iff]
  by_cases hk : k' = k
  · subst hk
    simp [eq_comm]
  · simp [get?_insert_of_ne hk, hk]

theorem nodup_keys (h : Sorted t) : t.keys.Nodup := by
  have hk : t.keys.Pairwise (· < ·) := List.pairwise_map.mpr h
  exact hk.imp fun hlt heq => by rw [heq] at hlt; exact String.lt_irrefl _ hlt

theorem nodup (h : Sorted t) : t.Nodup := List.Nodup.of_map _ h.nodup_keys

theorem of_keys (h : Sorted s) (hk : t.keys = s.keys) : Sorted t :=
  List.pairwise_map.mp (hk ▸ List.pairwise_map.mpr h : t.keys.Pairwise (· < ·))

/-- **Equal views, equal tables.** -/
theorem ext (hs : Sorted s) (ht : Sorted t) (h : ∀ k, get? k s = get? k t) : s = t := by
  have hperm : s.Perm t := (List.perm_ext_iff_of_nodup hs.nodup ht.nodup).mpr fun e => by
    rw [show e = (e.1, e.2) from rfl, hs.mem_iff, ht.mem_iff, h]
  exact hperm.eq_of_pairwise (fun a b _ _ hab hba => absurd (String.lt_trans hab hba)
    (String.lt_irrefl _)) hs ht

end Sorted

/-! ### Inserting many entries -/

/-- The table with more entries, a later one replacing an earlier one of the same key. -/
def insertAll (t : Assoc α) (es : List (String × α)) : Assoc α :=
  es.foldl (fun t e => insert e.1 e.2 t) t

theorem Sorted.insertAll (h : Sorted t) (es : List (String × α)) : Sorted (t.insertAll es) := by
  induction es generalizing t with
  | nil => exact h
  | cons e es ih => exact ih (h.insert e.1 e.2)

theorem mem_of_mem_insertAll {es : List (String × α)} {e : String × α} (h : e ∈ t.insertAll es) :
    e ∈ t ∨ e ∈ es := by
  induction es generalizing t with
  | nil => exact Or.inl h
  | cons e' es ih =>
    rcases ih h with h | h
    · rcases mem_of_mem_insert h with rfl | h
      · exact Or.inr List.mem_cons_self
      · exact Or.inl h
    · exact Or.inr (List.mem_cons_of_mem _ h)

/-- Entries with the same key have the same value. -/
def Consistent (es : List (String × α)) : Prop := ∀ e ∈ es, ∀ e' ∈ es, e.1 = e'.1 → e = e'

theorem Consistent.subset {es es' : List (String × α)} (h : Consistent es) (hs : es' ⊆ es) :
    Consistent es' := fun e he e' he' => h e (hs he) e' (hs he')

theorem Sorted.mem_insertAll_iff {es : List (String × α)} (hs : Sorted t)
    (h : Consistent (t ++ es)) {e : String × α} : e ∈ t.insertAll es ↔ e ∈ t ∨ e ∈ es := by
  induction es generalizing t with
  | nil => exact (or_iff_left List.not_mem_nil).symm
  | cons e' es ih =>
    have hm : ∀ e, e ∈ Assoc.insert e'.1 e'.2 t ↔ e = e' ∨ e ∈ t := fun e => by
      rw [hs.mem_insert_iff]
      constructor
      · exact fun he => he.imp id And.right
      · rintro (he | he)
        · exact Or.inl he
        · by_cases hk : e.1 = e'.1
          · exact Or.inl (h e (by simp [he]) e' (by simp) hk)
          · exact Or.inr ⟨hk, he⟩
    have hsub : Assoc.insert e'.1 e'.2 t ++ es ⊆ t ++ e' :: es := fun e he => by
      simp only [List.mem_append, List.mem_cons, hm] at he ⊢
      rw [← or_assoc, or_comm (b := e = e')]
      exact he
    refine (ih (hs.insert e'.1 e'.2) (h.subset hsub)).trans ?_
    rw [hm, List.mem_cons, ← or_assoc, or_comm (b := e ∈ t)]

theorem insert_of_forall_lt (h : ∀ e ∈ t, e.1 < k) (v : α) : insert k v t = t ++ [(k, v)] := by
  induction t with
  | nil => rfl
  | cons e rest ih =>
    obtain ⟨k', v'⟩ := e
    have hlt : k' < k := h _ List.mem_cons_self
    have hn : ¬ k < k' := fun h' => String.lt_irrefl _ (String.lt_trans hlt h')
    have hne : k ≠ k' := fun he => String.lt_irrefl _ (he ▸ hlt)
    rw [insert, if_neg hn, if_neg hne, ih fun e he => h e (List.mem_cons_of_mem _ he)]
    rfl

/-- **Entries in increasing order are put one after the other.** -/
theorem insertAll_of_sorted {es : List (String × α)} (h : Sorted (t ++ es)) :
    t.insertAll es = t ++ es := by
  induction es generalizing t with
  | nil => exact (List.append_nil t).symm
  | cons e es ih =>
    have hlt : ∀ e' ∈ t, e'.1 < e.1 := fun e' he' =>
      (List.pairwise_append.mp h).2.2 e' he' e List.mem_cons_self
    have h' : Sorted ((t ++ [(e.1, e.2)]) ++ es) := by rw [List.append_assoc]; exact h
    refine Eq.trans ?_ ((ih h').trans (List.append_assoc t [e] es))
    rw [← insert_of_forall_lt hlt e.2]
    rfl

/-- A sorted list of entries is the table it makes. -/
theorem ofEntries_of_sorted {es : List (String × α)} (h : Sorted es) : ofEntries es = es :=
  insertAll_of_sorted (t := []) h

theorem sorted_ofEntries (es : List (String × α)) : Sorted (ofEntries es) :=
  Sorted.insertAll List.Pairwise.nil es

theorem mem_of_mem_ofEntries {es : List (String × α)} {e : String × α} (h : e ∈ ofEntries es) :
    e ∈ es := (mem_of_mem_insertAll (t := []) h).resolve_left List.not_mem_nil

/-- The table of consistent entries has them and no others. -/
theorem mem_ofEntries_iff {es : List (String × α)} (h : Consistent es) {e : String × α} :
    e ∈ ofEntries es ↔ e ∈ es :=
  (Sorted.mem_insertAll_iff List.Pairwise.nil h).trans (or_iff_right List.not_mem_nil)

end SearchCompiler.Assoc
