import Mathlib.Data.Finset.Card
import SearchCompiler.Statement.OrderBy

/-! # Orderings and their insertions

An ordering is what remains of the insertions that it has seen. Its keys are theirs, in the order
in which they came up first, and each of them has the direction that it was given last. This holds
of the empty ordering, and one more insertion keeps it: a key that is there already stays at its
place, and a new one goes to the end, behind all that came up before it.

* `OrderBy.keys_insert`: the keys after an insertion.
* `OrderBy.Shows`, `OrderBy.Shows.insert`: an ordering and its insertions, one insertion later.
* `OrderBy.shows_insertAll`: any number of insertions.
* `OrderBy.view_of_insertions`: the view of an ordering, in terms of its insertions. -/

namespace SearchCompiler.OrderBy

variable {b : OrderBy} {es : List (String × SortOrder)}

/-! ### The keys after an insertion -/

theorem keys_place (k : String) (o : SortOrder) (es : List (String × SortOrder)) :
    (place k o es).map Prod.fst =
      if k ∈ es.map Prod.fst then es.map Prod.fst else es.map Prod.fst ++ [k] := by
  fun_induction place k o es with
  | case1 => simp
  | case2 o' rest => simp
  | case3 k' o' rest hk ih =>
    have hne : k ≠ k' := Ne.symm hk
    by_cases hmem : k ∈ rest.map Prod.fst
    · rw [if_pos hmem] at ih
      rw [List.map_cons, ih, List.map_cons, if_pos (List.mem_cons_of_mem _ hmem)]
    · rw [if_neg hmem] at ih
      rw [List.map_cons, ih, List.map_cons, if_neg (List.not_mem_cons_of_ne_of_not_mem hne hmem),
        List.cons_append]

/-- **The keys after an insertion.** A key stays at its place, or it comes last. -/
theorem keys_insert (b : OrderBy) (k : String) (o : SortOrder) :
    (b.insert k o).keys = if k ∈ b.keys then b.keys else b.keys ++ [k] := keys_place k o b.entries

theorem mem_keys_insert {j k : String} {o : SortOrder} :
    j ∈ (b.insert k o).keys ↔ j = k ∨ j ∈ b.keys := mem_keys_place

/-! ### One insertion after the other -/

/-- **An ordering shows some insertions**: it has their keys, ordered by when they came up first,
and the direction that each of them was given last. -/
structure Shows (b : OrderBy) (es : List (String × SortOrder)) : Prop where
  mem_keys_iff (k : String) : k ∈ b.keys ↔ k ∈ es.map Prod.fst
  ordered : b.keys.Pairwise fun j k => (es.map Prod.fst).idxOf j < (es.map Prod.fst).idxOf k
  get?_eq (k : String) : b.get? k = es.reverse.lookup k

theorem shows_empty : Shows empty [] where
  mem_keys_iff _ := Iff.rfl
  ordered := List.Pairwise.nil
  get?_eq _ := rfl

theorem Shows.ordered_append (h : Shows b es) (ks : List String) :
    b.keys.Pairwise fun j k =>
      (es.map Prod.fst ++ ks).idxOf j < (es.map Prod.fst ++ ks).idxOf k := by
  refine h.ordered.imp_of_mem fun hj hk hlt => ?_
  rw [List.idxOf_append_of_mem ((h.mem_keys_iff _).mp hj),
    List.idxOf_append_of_mem ((h.mem_keys_iff _).mp hk)]
  exact hlt

theorem Shows.idxOf_lt {j k : String} (h : Shows b es) (hj : j ∈ b.keys) (hk : k ∉ b.keys) :
    (es.map Prod.fst ++ [k]).idxOf j < (es.map Prod.fst ++ [k]).idxOf k := by
  have hold : j ∈ es.map Prod.fst := (h.mem_keys_iff j).mp hj
  have hnew : k ∉ es.map Prod.fst := fun hmem => hk ((h.mem_keys_iff k).mpr hmem)
  rw [List.idxOf_append_of_mem hold, List.idxOf_append_of_notMem hnew]
  exact Nat.lt_add_right _ (List.idxOf_lt_length_of_mem hold)

/-- **One more insertion.** -/
theorem Shows.insert (h : Shows b es) (k : String) (o : SortOrder) :
    Shows (b.insert k o) (es ++ [(k, o)]) where
  mem_keys_iff j := by
    rw [mem_keys_insert, h.mem_keys_iff, List.map_append, List.mem_append, List.map_singleton,
      List.mem_singleton, or_comm]
  ordered := by
    rw [List.map_append, List.map_singleton, keys_insert]
    split
    · exact h.ordered_append [k]
    · next hk =>
      refine List.pairwise_append.mpr ⟨h.ordered_append [k], List.pairwise_singleton _ _, ?_⟩
      intro j hj k' hk'
      obtain rfl := List.mem_singleton.mp hk'
      exact h.idxOf_lt hj hk
  get?_eq j := by
    rw [List.reverse_append, List.reverse_singleton, List.singleton_append, List.lookup_cons]
    by_cases hj : j = k
    · rw [hj, get?_insert_self, beq_self_eq_true]
    · rw [get?_insert_of_ne hj, h.get?_eq, beq_false_of_ne hj]

/-- **The ordering after more insertions.** -/
def insertAll (b : OrderBy) (es : List (String × SortOrder)) : OrderBy :=
  es.foldl (fun b e => b.insert e.1 e.2) b

theorem Shows.insertAll (h : Shows b es) (more : List (String × SortOrder)) :
    Shows (b.insertAll more) (es ++ more) := by
  induction more generalizing b es with
  | nil => rwa [List.append_nil]
  | cons e more ih =>
    rw [← List.singleton_append, ← List.append_assoc]
    exact ih (h.insert e.1 e.2)

theorem shows_ofList (es : List (String × SortOrder)) : Shows (ofList es) es :=
  shows_empty.insertAll es

/-! ### The view of an ordering -/

theorem Shows.nodup_keys (h : Shows b es) : b.keys.Nodup := by
  refine h.ordered.imp fun {j k} hlt heq => ?_
  rw [heq] at hlt
  exact Nat.lt_irrefl _ hlt

theorem Shows.size_eq (h : Shows b es) : b.size = (es.map Prod.fst).toFinset.card := by
  have hkeys : b.keys.toFinset = (es.map Prod.fst).toFinset := by
    ext k
    rw [List.mem_toFinset, List.mem_toFinset, h.mem_keys_iff]
  rw [← hkeys, List.toFinset_card_of_nodup h.nodup_keys]
  exact (List.length_map Prod.fst).symm

/-- **An ordering is known by its insertions**, whether they came in a list or one by one. Each key
stands once, in the order in which the keys came up first. It has the direction that it was given
last, and a key that was never given has none. -/
theorem view_of_insertions (first more : List (String × SortOrder)) :
    let b := (ofList first).insertAll more
    let inserted := first ++ more
    let given := inserted.map Prod.fst
    b.keys.Nodup ∧ (∀ k, k ∈ b.keys ↔ k ∈ given) ∧
      (b.keys.Pairwise fun j k => given.idxOf j < given.idxOf k) ∧
      (∀ k, b.get? k = inserted.reverse.lookup k) ∧ (∀ e ∈ b.entries, b.get? e.1 = some e.2) ∧
      (∀ k, b.get? k = none ↔ k ∉ given) ∧ (∀ k, b.contains k = (b.get? k).isSome) ∧
      b.size = given.toFinset.card := by
  intro b inserted given
  have h : Shows b inserted := (shows_ofList first).insertAll more
  refine ⟨h.nodup_keys, h.mem_keys_iff, h.ordered, h.get?_eq, fun e => get?_eq_some_iff.mpr,
    fun k => ?_, fun k => rfl, h.size_eq⟩
  rw [← h.mem_keys_iff, ← contains_iff, contains, Option.not_isSome_iff_eq_none]

/-- A key that is given again keeps its place. -/
example : ((ofList [("lineno", .desc), ("timestamp", .asc)]).insertAll [("lineno", .asc)]).entries =
    [("lineno", .asc), ("timestamp", .asc)] := by decide

end SearchCompiler.OrderBy
