import SearchCompiler.Clause.Basic
import SearchCompiler.Proofs.Assoc.Sorted
import SearchCompiler.Proofs.Outcome

/-! # Making clauses

A clause is made for a supported version only, and a clause about a field only if there is more to
its name than blanks. A new clause has no parameters; those that are written, under keys that the
version has, make up the table of its entries. -/

namespace SearchCompiler

/-- Is there more to the name of a field than blanks? -/
def isFieldName (n : String) : Bool := !(Text.trimChars n.toList).isEmpty

variable {v : Version} {n : String}

theorem Params.new_eq_ok_iff {gates : List Gate} {p : Params} :
    Params.new v gates = .ok p ↔ v.isSupported = true ∧ p = .empty v gates := by
  unfold Params.new Version.ensureSupported
  cases hv : v.isSupported with
  | true => exact ⟨fun h => ⟨rfl, (Except.ok.inj h).symm⟩, fun h => congrArg _ h.2.symm⟩
  | false => exact ⟨fun h => (nomatch h), fun h => (nomatch h.1)⟩

/-- What is made of new parameters. -/
theorem Params.new_bind_eq_ok_iff {α : Type} {gates : List Gate} {f : Params → α} {a : α} :
    (Params.new v gates >>= fun p => .ok (f p)) = .ok a ↔
      v.isSupported = true ∧ a = f (.empty v gates) := by
  simp only [Outcome.bind_eq_ok, Params.new_eq_ok_iff]
  constructor
  · rintro ⟨_, ⟨hv, rfl⟩, h⟩
    exact ⟨hv, (Except.ok.inj h).symm⟩
  · rintro ⟨hv, rfl⟩
    exact ⟨_, ⟨hv, rfl⟩, rfl⟩

theorem requireField_eq_ok_iff {k : ClauseKind} {n' : String} :
    requireField k n = .ok n' ↔ isFieldName n = true ∧ n' = n := by
  unfold requireField isFieldName
  cases hn : (Text.trimChars n.toList).isEmpty with
  | true => exact ⟨fun h => (nomatch h), fun h => (nomatch h.1)⟩
  | false => exact ⟨fun h => ⟨rfl, (Except.ok.inj h).symm⟩, fun h => by rw [h.2]; rfl⟩

theorem requireField_bind_eq_ok_iff {α : Type} {k : ClauseKind} {f : String → Params → α} {a : α} :
    (requireField k n >>= fun n => Params.new v [] >>= fun p => .ok (f n p)) = .ok a ↔
      isFieldName n = true ∧ v.isSupported = true ∧ a = f n (.empty v []) := by
  simp only [Outcome.bind_eq_ok (x := requireField k n), requireField_eq_ok_iff,
    Params.new_bind_eq_ok_iff]
  constructor
  · rintro ⟨_, ⟨hn, rfl⟩, h⟩
    exact ⟨hn, h⟩
  · rintro ⟨hn, h⟩
    exact ⟨n, ⟨hn, rfl⟩, h⟩

theorem FieldClause.new_eq_ok_iff {k : FieldKind} {c : FieldClause k} :
    FieldClause.new k n v = .ok c ↔
      isFieldName n = true ∧ v.isSupported = true ∧ c = ⟨n, .empty v []⟩ :=
  requireField_bind_eq_ok_iff

theorem Terms.new_eq_ok_iff {c : Terms} :
    Terms.new n v = .ok c ↔
      isFieldName n = true ∧ v.isSupported = true ∧ c = ⟨n, .empty v []⟩ :=
  requireField_bind_eq_ok_iff

theorem BoolGroup.new_eq_ok_iff {g : BoolGroup} :
    BoolGroup.new v = .ok g ↔ v.isSupported = true ∧ g = .empty v := Params.new_bind_eq_ok_iff

theorem Aggs.new_eq_ok_iff {a : Aggs} :
    Aggs.new v = .ok a ↔ v.isSupported = true ∧ a = ⟨.empty v []⟩ := Params.new_bind_eq_ok_iff

theorem Request.new_eq_ok_iff {r : Request} :
    Request.new v = .ok r ↔ v.isSupported = true ∧ r = ⟨.empty v gates⟩ :=
  Params.new_bind_eq_ok_iff

/-! ### Writing parameters -/

namespace Params

variable {p : Params} {k : String}

theorem get?_empty (v : Version) (gates : List Gate) : (empty v gates).get? k = none := by
  rw [get?]
  split <;> rfl

theorem isGated_of_ungated (h : p.gates = []) (k : String) : p.isGated k = false := by
  rw [isGated, h]
  rfl

theorem put_of_not_gated (h : p.isGated k = false) (j : Json) :
    p.put k j = { p with entries := Assoc.insert k j p.entries } := by
  simp [put, modify, h]

theorem putAll_of_not_gated {es : List (String × Json)} (h : ∀ e ∈ es, p.isGated e.1 = false) :
    p.putAll es = { p with entries := p.entries.insertAll es } := by
  induction es generalizing p with
  | nil => rfl
  | cons e es ih =>
    have hput := put_of_not_gated (h e List.mem_cons_self) e.2
    have hrest : ∀ e' ∈ es, (p.put e.1 e.2).isGated e'.1 = false := fun e' he' =>
      (isGated_modify ..).trans (h e' (List.mem_cons_of_mem _ he'))
    refine (ih hrest).trans ?_
    rw [hput]
    rfl

theorem putAll_empty (v : Version) (es : List (String × Json)) :
    (empty v []).putAll es = ⟨Assoc.ofEntries es, v, []⟩ :=
  putAll_of_not_gated fun _ _ => rfl

end Params

theorem Terms.values_withValues_new {n : String} {v : Version} {c : Terms}
    (h : Terms.new n v = .ok c) (js : List Json) : (c.withValues js).values = js := by
  obtain ⟨-, -, rfl⟩ := Terms.new_eq_ok_iff.mp h
  have hget : ((Params.empty v []).put n (.arr js)).get? n = some (.arr js) :=
    Params.get?_put_self rfl _
  rw [values, withValues, Params.list, hget]
  rfl

end SearchCompiler
