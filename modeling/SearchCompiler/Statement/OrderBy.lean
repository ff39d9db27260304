import SearchCompiler.SortOrder

/-! # Orderings

The keys of an ordering with their directions, in order. A key that is given again keeps its place
and takes the new direction, so that no key stands twice. The view of an ordering is `get?`.

* `OrderBy.get?_eq_some_iff`: the view shows the entries and nothing else. -/

namespace SearchCompiler

namespace OrderBy

/-- The direction of a key in a list of entries. -/
def find? (k : String) : List (String × SortOrder) → Option SortOrder
  | [] => none
  | (k', o) :: rest => if k' = k then some o else find? k rest

/-- Gives a key its direction, at its place or at the end of a list. -/
def place (k : String) (o : SortOrder) : List (String × SortOrder) → List (String × SortOrder)
  | [] => [(k, o)]
  | (k', o') :: rest => if k' = k then (k', o) :: rest else (k', o') :: place k o rest

@[simp] theorem find?_place_self (k : String) (o : SortOrder) (es : List (String × SortOrder)) :
    find? k (place k o es) = some o := by
  fun_induction place k o es <;> simp_all [find?]

theorem find?_place_of_ne {j k : String} (h : j ≠ k) (o : SortOrder)
    (es : List (String × SortOrder)) : find? j (place k o es) = find? j es := by
  fun_induction place k o es with
  | case1 => simp [find?, h.symm]
  | case2 o' rest => simp [find?, h.symm]
  | case3 k' o' rest hk ih => simp [find?, ih]

theorem mem_keys_place {j k : String} {o : SortOrder} {es : List (String × SortOrder)} :
    j ∈ (place k o es).map Prod.fst ↔ j = k ∨ j ∈ es.map Prod.fst := by
  fun_induction place k o es with
  | case1 => simp
  | case2 o' rest => simp
  | case3 k' o' rest hk ih => simp [ih, or_left_comm]

/-- A key that is given its direction does not come to stand twice. -/
theorem nodup_keys_place {k : String} {o : SortOrder} {es : List (String × SortOrder)}
    (h : (es.map Prod.fst).Nodup) : ((place k o es).map Prod.fst).Nodup := by
  fun_induction place k o es with
  | case1 => simp
  | case2 o' rest => exact h
  | case3 k' o' rest hk ih =>
    obtain ⟨hne, hrest⟩ := List.nodup_cons.mp h
    refine List.nodup_cons.mpr ⟨fun hmem => ?_, ih hrest⟩
    exact (mem_keys_place.mp hmem).elim hk hne

end OrderBy

/-- **The keys of an ordering**, each of them once. -/
structure OrderBy where
  entries : List (String × SortOrder)
  nodup : (entries.map Prod.fst).Nodup
  deriving DecidableEq, Repr

namespace OrderBy

def empty : OrderBy := ⟨[], List.nodup_nil⟩

instance : Inhabited OrderBy := ⟨empty⟩

/-- **Orders by a key.** -/
def insert (b : OrderBy) (k : String) (o : SortOrder) : OrderBy :=
  ⟨place k o b.entries, nodup_keys_place b.nodup⟩

/-- The direction of a key. -/
def get? (b : OrderBy) (k : String) : Option SortOrder := find? k b.entries

def contains (b : OrderBy) (k : String) : Bool := (b.get? k).isSome

def ofList (es : List (String × SortOrder)) : OrderBy :=
  es.foldl (fun b e => b.insert e.1 e.2) empty

def keys (b : OrderBy) : List String := b.entries.map Prod.fst

def size (b : OrderBy) : Nat := b.entries.length

def isEmpty (b : OrderBy) : Bool := b.entries.isEmpty

theorem get?_insert_self (b : OrderBy) (k : String) (o : SortOrder) :
    (b.insert k o).get? k = some o := find?_place_self k o b.entries

theorem get?_insert_of_ne {j k : String} (h : j ≠ k) (b : OrderBy) (o : SortOrder) :
    (b.insert k o).get? j = b.get? j := find?_place_of_ne h o b.entries

theorem mem_of_find? {k : String} {o : SortOrder} {es : List (String × SortOrder)}
    (h : find? k es = some o) : (k, o) ∈ es := by
  fun_induction find? k es with
  | case1 => simp at h
  | case2 o' rest => simp_all
  | case3 k' o' rest hk ih => exact List.mem_cons_of_mem _ (ih h)

theorem find?_of_mem {k : String} {o : SortOrder} {es : List (String × SortOrder)}
    (hn : (es.map Prod.fst).Nodup) (h : (k, o) ∈ es) : find? k es = some o := by
  induction es with
  | nil => simp at h
  | cons e rest ih =>
    obtain ⟨k', o'⟩ := e
    obtain ⟨hne, hrest⟩ := List.nodup_cons.mp hn
    rw [find?]
    rcases List.mem_cons.mp h with heq | h
    · cases heq
      exact if_pos rfl
    · have hk : k' ≠ k := fun hk => hne (List.mem_map.mpr ⟨(k, o), h, hk.symm⟩)
      rw [if_neg hk, ih hrest h]

/-- **The view shows the entries** and nothing else. -/
theorem get?_eq_some_iff {b : OrderBy} {k : String} {o : SortOrder} :
    b.get? k = some o ↔ (k, o) ∈ b.entries := ⟨mem_of_find?, find?_of_mem b.nodup⟩

theorem mem_keys_of_mem {b : OrderBy} {e : String × SortOrder} (h : e ∈ b.entries) : e.1 ∈ b.keys :=
  List.mem_map_of_mem h

/-- The keys of an ordering are those that it has a direction for. -/
theorem contains_iff {b : OrderBy} {k : String} : b.contains k = true ↔ k ∈ b.keys := by
  rw [contains, Option.isSome_iff_exists]
  simp [get?_eq_some_iff, keys]

end OrderBy

end SearchCompiler
