import SearchCompiler.Proofs.Schema.Declarations

/-! # Inheriting from a parent

A schema that extends a parent has the fields of the parent that it does not declare itself, in
their order, and then its own. Names stay distinct, so that a path leads where it led in the schema
itself if that declares the first segment, and otherwise where it leads in the parent: a composite
that is declared again hides the one of the parent with all that is below it. Inheriting once more
from the same parent adds nothing.

* `Schema.lookup?_extend`: the field at a path.
* `Schema.extend_overrides`: all that inheriting does. -/

namespace SearchCompiler.Schema

variable {s parent : Schema} {head path : String} {keys : List String}

theorem exists_segments (path : String) : ∃ head keys, segments path = head :: keys := by
  have hne : segments path ≠ [] := by
    rw [segments, Text.splitAtAny_eq_splitOnP]
    exact List.map_eq_nil_iff.not.mpr (List.splitOnP_ne_nil _ _)
  exact List.exists_cons_of_ne_nil hne

theorem lookup?_of_segments (h : segments path = head :: keys) (s : Schema) :
    s.lookup? path = (find? head s.fields).bind (·.descend? keys) := by
  rw [lookup?, h]

/-- **The field at a path**: that of the schema itself if it declares the first segment, and
otherwise that of the parent. -/
theorem lookup?_extend (hs : Distinct s.fields) (hp : Distinct parent.fields)
    (h : segments path = head :: keys) :
    ((∃ own ∈ s.fields, own.name = some head) →
        (s.extend parent).lookup? path = s.lookup? path) ∧
      ((∀ own ∈ s.fields, own.name ≠ some head) →
        (s.extend parent).lookup? path = parent.lookup? path) := by
  simp only [lookup?_of_segments h, find?_extend hs hp]
  constructor
  · rintro ⟨own, hown, hname⟩
    rw [(find?_eq_some_iff hs).mpr ⟨hown, hname⟩, Option.some_or]
  · intro hnone
    rw [find?_eq_none_iff.mpr hnone, Option.none_or]

/-- Nothing is left to inherit from a parent that was extended before. -/
theorem inherited_extend (s parent : Schema) : inherited (s.extend parent) parent = [] := by
  refine List.eq_nil_iff_forall_not_mem.mpr fun f hf => ?_
  obtain ⟨hparent, hnew⟩ := mem_inherited.mp hf
  rw [fields_extend] at hnew
  have hown : ∀ own ∈ s.fields, own.name ≠ f.name := fun own h =>
    hnew own (List.mem_append_right _ h)
  exact hnew f (List.mem_append_left _ (mem_inherited.mpr ⟨hparent, hown⟩)) rfl

theorem extend_extend (s parent : Schema) :
    (s.extend parent).extend parent = s.extend parent := by
  have hfields : inherited (s.extend parent) parent ++ (s.extend parent).fields =
      (s.extend parent).fields := by
    rw [inherited_extend, List.nil_append]
  exact congrArg (fun fs => { s with fields := fs }) hfields

/-- **Inheriting overrides cleanly.** With distinct names on both sides, the names are distinct
afterwards; the fields are those of the parent that are not declared again, in the order of the
parent, and then those of the schema as they were; a path leads where it led in the schema that
declares its first segment; and inheriting once more changes nothing. -/
theorem extend_overrides (hs : Distinct s.fields) (hp : Distinct parent.fields) :
    Distinct (s.extend parent).fields ∧
    (∃ kept, s.extend parent = { s with fields := kept ++ s.fields } ∧
      kept.Sublist parent.fields ∧
      ∀ f, f ∈ kept ↔ f ∈ parent.fields ∧ ∀ own ∈ s.fields, own.name ≠ f.name) ∧
    (∀ path, ∃ head keys, segments path = head :: keys ∧
      ((∃ own ∈ s.fields, own.name = some head) →
        (s.extend parent).lookup? path = s.lookup? path) ∧
      ((∀ own ∈ s.fields, own.name ≠ some head) →
        (s.extend parent).lookup? path = parent.lookup? path)) ∧
    (s.extend parent).extend parent = s.extend parent := by
  refine ⟨distinct_extend hs hp, ⟨inherited s parent, rfl, List.filter_sublist, fun f =>
    mem_inherited⟩, fun path => ?_, extend_extend s parent⟩
  obtain ⟨head, keys, h⟩ := exists_segments path
  exact ⟨head, keys, h, lookup?_extend hs hp h⟩

/-- Visits of a user who has a number only. -/
def visits : Schema :=
  (Schema.new "Visits").declare "user" (.ofKind (.object [("id", .ofKind .integer)]))

/-- Events on a host, of a user who has a name as well. -/
def events : Schema :=
  ((Schema.new "Events").declare "host" (.ofKind .text)).declare "user"
    (.ofKind (.object [("id", .ofKind .text), ("name", .ofKind .text)]))

/-- The host is inherited. The user is not, so that no path leads to a name. -/
theorem extend_overrides_visits : Distinct visits.fields ∧ Distinct events.fields ∧
    Distinct (visits.extend events).fields ∧
    (visits.extend events).lookup? "host" = events.lookup? "host" ∧
    (visits.extend events).lookup? "user.id" = some ((Field.ofKind .integer).rename "user.id") ∧
    (visits.extend events).lookup? "user.name" = none ∧
      events.lookup? "user.name" = some ((Field.ofKind .text).rename "user.name") := by
  have hvisits : Distinct visits.fields := by decide
  have hevents : Distinct events.fields := by decide
  obtain ⟨hdistinct, -, hlookup, -⟩ := extend_overrides hvisits hevents
  have huser : ∃ own ∈ visits.fields, own.name = some "user" := ⟨_, List.mem_cons_self, rfl⟩
  have hhost : ∀ own ∈ visits.fields, own.name ≠ some "host" := by
    intro own hown
    rw [List.mem_singleton.mp hown]
    decide
  obtain ⟨head, keys, hpath, -, hparent⟩ := hlookup "host"
  obtain ⟨rfl, -⟩ := List.cons.inj hpath
  obtain ⟨head, keys, hid, hown, -⟩ := hlookup "user.id"
  obtain ⟨rfl, -⟩ := List.cons.inj hid
  obtain ⟨head, keys, hname, hown', -⟩ := hlookup "user.name"
  obtain ⟨rfl, -⟩ := List.cons.inj hname
  exact ⟨hvisits, hevents, hdistinct, hparent hhost, (hown huser).trans rfl,
    (hown' huser).trans rfl, rfl⟩

end SearchCompiler.Schema
