/-! # Association lists sorted by key

Every keyed table of this library (the members of a JSON object, the names of a registry) is a list
of entries kept in increasing order of the key. The order on strings is by code point, which is also
the order of their UTF-8 bytes. The one view of a table is `get?`.

* `get?_insert_self`, `get?_insert_of_ne`: an insertion changes the entry of its key and no other.
* `get?_erase_self`, `get?_erase_of_ne`: likewise for a removal.
* `Sorted.insert`, `Sorted.erase`: both keep the order of the keys. -/

namespace SearchCompiler

/-- A table from strings to `α`. -/
abbrev Assoc (α : Type) := List (String × α)

namespace Assoc

variable {α : Type}

/-- The entry of a key. -/
def get? (k : String) : Assoc α → Option α
  | [] => none
  | (k', v) :: rest => if k = k' then some v else get? k rest

/-- Is there an entry with this key? -/
def contains (k : String) (t : Assoc α) : Bool := (get? k t).isSome

/-- **Insertion**, replacing the entry of an equal key. -/
def insert (k : String) (v : α) : Assoc α → Assoc α
  | [] => [(k, v)]
  | (k', v') :: rest =>
    if k < k' then (k, v) :: (k', v') :: rest
    else if k = k' then (k, v) :: rest
    else (k', v') :: insert k v rest

/-- Removal of every entry of a key. -/
def erase (k : String) (t : Assoc α) : Assoc α := t.filter fun e => e.1 != k

/-- The keys, in order. -/
def keys (t : Assoc α) : List String := t.map Prod.fst

/-- The table of a list of entries, a later entry replacing an earlier one of the same key. -/
def ofEntries (es : List (String × α)) : Assoc α := es.foldl (fun t e => insert e.1 e.2 t) []

/-- The keys increase. -/
def Sorted (t : Assoc α) : Prop := t.Pairwise fun a b => a.1 < b.1

instance (t : Assoc α) : Decidable (Sorted t) := by
  unfold Sorted; infer_instance

@[simp] theorem get?_nil (k : String) : get? k ([] : Assoc α) = none := rfl

theorem get?_cons (k k' : String) (v : α) (rest : Assoc α) :
    get? k ((k', v) :: rest) = if k = k' then some v else get? k rest := rfl

@[simp] theorem get?_insert_self (k : String) (v : α) (t : Assoc α) :
    get? k (insert k v t) = some v := by
  fun_induction insert k v t <;> simp_all [get?]

theorem get?_insert_of_ne {j k : String} (h : j ≠ k) (v : α) (t : Assoc α) :
    get? j (insert k v t) = get? j t := by
  fun_induction insert k v t <;> simp_all [get?]

@[simp] theorem get?_erase_self (k : String) (t : Assoc α) : get? k (erase k t) = none := by
  induction t with
  | nil => rfl
  | cons e rest ih =>
    by_cases h : e.1 = k
    · simpa [erase, h] using ih
    · have h' : k ≠ e.1 := fun e' => h e'.symm
      simpa [erase, h, get?, h'] using ih

theorem get?_erase_of_ne {j k : String} (h : j ≠ k) (t : Assoc α) :
    get? j (erase k t) = get? j t := by
  induction t with
  | nil => rfl
  | cons e rest ih =>
    by_cases he : e.1 = k
    · have hj : j ≠ e.1 := fun e' => h (e'.trans he)
      simpa [erase, he, get?, h] using ih
    · simp only [erase] at ih
      simp [erase, he, get?, ih]

theorem mem_keys_insert {j k : String} {v : α} {t : Assoc α} :
    j ∈ (insert k v t).keys ↔ j = k ∨ j ∈ t.keys := by
  fun_induction insert k v t <;> simp_all [keys]
  grind

theorem Sorted.insert {t : Assoc α} (h : t.Sorted) (k : String) (v : α) :
    (t.insert k v).Sorted := by
  fun_induction Assoc.insert k v t with
  | case1 => simp [Sorted]
  | case2 k' v' rest hk =>
    refine List.pairwise_cons.2 ⟨fun e he => ?_, h⟩
    rcases List.mem_cons.1 he with rfl | he
    · exact hk
    · exact String.lt_trans hk ((List.pairwise_cons.1 h).1 e he)
  | case3 v' rest hk =>
    exact List.pairwise_cons.2 ⟨fun e he => (List.pairwise_cons.1 h).1 e he,
      (List.pairwise_cons.1 h).2⟩
  | case4 k' v' rest hk hne ih =>
    refine List.pairwise_cons.2 ⟨fun e he => ?_, ih (List.pairwise_cons.1 h).2⟩
    have hmem : e.1 ∈ (Assoc.insert k v rest).keys := List.mem_map_of_mem he
    rcases mem_keys_insert.1 hmem with hek | hek
    · have hle : k' ≤ k := hk
      rw [hek]
      exact Std.lt_of_le_of_ne hle fun e' => hne e'.symm
    · obtain ⟨e', he', heq⟩ := List.mem_map.1 hek
      rw [← heq]
      exact (List.pairwise_cons.1 h).1 e' he'

theorem Sorted.erase {t : Assoc α} (h : t.Sorted) (k : String) : (t.erase k).Sorted :=
  List.Pairwise.filter _ h

end Assoc

end SearchCompiler
