import Mathlib.Data.List.Nodup
import SearchCompiler.Proofs.Schema.Lookup
import SearchCompiler.Proofs.Schema.RecordCalls

/-! # Names after any number of declarations

A schema is declared one field after the other, and inherits from parents that are declared
likewise. A field that is declared under a key replaces the one of this name. But it keeps a name
that it had before, and nothing asks whether another field has that one: then there are two of it,
and the older may be found. Only such a clash makes names that are not distinct; without one, a name
denotes the field that was declared last.

* `Declaration`, `Declaration.schema`: declarations and the schemas that they make.
* `Declaration.Settled`: no field is declared with the name of another one.
* `Declaration.latest?`: the field that was declared last under a name.
* `Declaration.distinct_iff_and_find?_eq`: when names stay distinct, and what they denote. -/

namespace SearchCompiler.Schema

variable {s parent : Schema} {f g : Field} {fs : List Field} {m n : String}

/-! ### One declaration -/

theorem find?_cons (m : String) (g : Field) (fs : List Field) :
    find? m (g :: fs) = if g.name = some m then some g else find? m fs := by
  simp only [find?, List.find?_cons]
  by_cases h : g.name = some m
  · simp [h]
  · have hne : (g.name == some m) = false := by simpa using h
    simp [h, hne]

theorem distinct_cons : Distinct (g :: fs) ↔ (∀ f ∈ fs, f.name ≠ g.name) ∧ Distinct fs := by
  simp [Distinct]

/-- **Placing a field** keeps names distinct unless another field has the name. -/
theorem distinct_place_iff (hd : Distinct fs) :
    Distinct (place n f fs) ↔ (f.name ≠ some n → ∀ g ∈ fs, g.name ≠ f.name) := by
  induction fs with
  | nil => exact iff_of_true (List.nodup_singleton _) fun _ _ hg => absurd hg List.not_mem_nil
  | cons g fs ih =>
    obtain ⟨hg, hd⟩ := distinct_cons.mp hd
    rw [place, List.forall_mem_cons]
    split
    · next hn =>
      rw [distinct_cons, and_iff_left hd]
      refine ⟨fun h hf => ⟨hn ▸ hf.symm, h⟩, fun h f' hf' => ?_⟩
      by_cases hf : f.name = some n
      · rw [hf, ← hn]
        exact hg f' hf'
      · exact (h hf).2 f' hf'
    · next hn =>
      rw [distinct_cons, ih hd]
      refine ⟨fun h hf => ⟨(h.1 f (self_mem_place n f fs)).symm, h.2 hf⟩, fun h => ?_⟩
      refine ⟨fun f' hf' => ?_, fun hf => (h hf).2⟩
      rcases eq_or_mem_of_mem_place hf' with rfl | hf'
      · by_cases hf : f'.name = some n
        · exact hf ▸ Ne.symm hn
        · exact (h hf).1.symm
      · exact hg f' hf'

/-- **What is found** once a field is placed: the field, nothing under the key if it has another
name, and what was found before under all other names. -/
theorem find?_place (hd : Distinct (place n f fs)) (hfs : Distinct fs) (m : String) :
    find? m (place n f fs) =
      if f.name = some m then some f else if m = n then none else find? m fs := by
  split
  · next hf => exact (find?_eq_some_iff hd).mpr ⟨self_mem_place n f fs, hf⟩
  · next hf =>
    clear hd
    induction fs with
    | nil => simp [place, hf, find?]
    | cons g fs ih =>
      obtain ⟨hg, hfs⟩ := distinct_cons.mp hfs
      rw [place]
      split
      · next hn =>
        rw [find?_cons, find?_cons, if_neg hf, hn]
        split
        · next hm =>
          subst hm
          exact find?_eq_none_iff.mpr (hn ▸ hg)
        · next hm => rw [if_neg fun h => hm (Option.some.inj h).symm]
      · next hn =>
        rw [find?_cons, find?_cons, ih hfs]
        split
        · next hm => rw [if_neg fun h : m = n => hn (h ▸ hm)]
        · rfl

/-! ### Inheriting -/

/-- What a schema inherits: the fields of names that it does not declare. -/
def inherited (s parent : Schema) : List Field :=
  parent.fields.filter fun f => !s.fields.any fun own => own.name == f.name

theorem fields_extend (s parent : Schema) :
    (s.extend parent).fields = inherited s parent ++ s.fields := rfl

theorem mem_inherited :
    g ∈ inherited s parent ↔ g ∈ parent.fields ∧ ∀ own ∈ s.fields, own.name ≠ g.name := by
  simp [inherited]

/-- **Inheriting** keeps names distinct. -/
theorem distinct_extend (hs : Distinct s.fields) (hp : Distinct parent.fields) :
    Distinct (s.extend parent).fields := by
  have hinherited : Distinct (inherited s parent) :=
    List.Nodup.sublist (List.filter_sublist.map Field.name) hp
  rw [Distinct, fields_extend, List.map_append, List.nodup_append]
  refine ⟨hinherited, hs, fun a ha b hb => ?_⟩
  obtain ⟨g, hg, rfl⟩ := List.mem_map.mp ha
  obtain ⟨own, hown, rfl⟩ := List.mem_map.mp hb
  exact ((mem_inherited.mp hg).2 own hown).symm

/-- **What is found** in a schema that inherits: what it declares, and otherwise what its parent
has. -/
theorem find?_extend (hs : Distinct s.fields) (hp : Distinct parent.fields) (m : String) :
    find? m (s.extend parent).fields = (find? m s.fields).or (find? m parent.fields) := by
  have hd := distinct_extend hs hp
  ext g
  rw [find?_eq_some_iff hd, fields_extend, List.mem_append, mem_inherited, Option.or_eq_some_iff,
    find?_eq_some_iff hs, find?_eq_some_iff hp, find?_eq_none_iff]
  constructor
  · rintro ⟨⟨hg, hown⟩ | hg, hm⟩
    · exact Or.inr ⟨fun own h => hm ▸ hown own h, hg, hm⟩
    · exact Or.inl ⟨hg, hm⟩
  · rintro (⟨hg, hm⟩ | ⟨hown, hg, hm⟩)
    · exact ⟨Or.inr hg, hm⟩
    · exact ⟨Or.inl ⟨hg, fun own h => hm ▸ hown own h⟩, hm⟩

/-! ### One declaration after the other -/

/-- **Declarations** of a schema: fields under keys, and parents that are declared likewise. -/
inductive Declaration where
  | new (name : String)
  | field (d : Declaration) (key : String) (f : Field)
  | extend (d parent : Declaration)

namespace Declaration

/-- **The schema** that is declared. -/
def schema : Declaration → Schema
  | new name => .new name
  | field d key f => d.schema.declare key f
  | extend d parent => d.schema.extend parent.schema

/-- The schemas after each of the declarations, those of the parents among them. -/
def stages : Declaration → List Schema
  | new name => [.new name]
  | field d key f => d.schema.declare key f :: d.stages
  | extend d parent => d.schema.extend parent.schema :: (d.stages ++ parent.stages)

/-- **Does a field clash?** It comes with a name of its own, which is not the key and which another
field of the schema has. -/
def Clashes (s : Schema) (key : String) (f : Field) : Prop :=
  ∃ m, f.name = some m ∧ m ≠ key ∧ ∃ g ∈ s.fields, g.name = some m

/-- **No field clashes**, neither in the schema nor in its parents. -/
def Settled : Declaration → Prop
  | new _ => True
  | field d key f => d.Settled ∧ ¬ Clashes d.schema key f
  | extend d parent => d.Settled ∧ parent.Settled

/-- **The field that was declared last under a name.** What the schema declares comes before what
its parent has. A key that is declared for a field of another name is given up. -/
def latest? (m : String) : Declaration → Option Field
  | new _ => none
  | field d key f =>
    if (f.named key).name = some m then some (f.named key)
    else if m = key then none
    else d.latest? m
  | extend d parent => (d.latest? m).or (parent.latest? m)

variable {d parent : Declaration} {key : String}

theorem schema_mem_stages (d : Declaration) : d.schema ∈ d.stages := by
  cases d <;> exact List.mem_cons_self

/-- **One more field** keeps names distinct unless it clashes. -/
theorem distinct_declare_iff (hs : Distinct s.fields) :
    Distinct (s.declare key f).fields ↔ ¬ Clashes s key f := by
  have hplace := distinct_place_iff (n := key) (f := f.named key) hs
  refine hplace.trans ?_
  unfold Field.named Clashes
  cases hf : f.name with
  | none => simp
  | some m => simp [hf]

/-- **Names are distinct** after each of the declarations if no field clashes, and only then. -/
theorem forall_stages_distinct_iff (d : Declaration) :
    (∀ s ∈ d.stages, Distinct s.fields) ↔ d.Settled := by
  induction d with
  | new name => exact iff_of_true (fun s hs => List.mem_singleton.mp hs ▸ List.nodup_nil) trivial
  | field d key f ih =>
    rw [stages, List.forall_mem_cons, ih, Settled, and_comm]
    refine and_congr_right fun hd => distinct_declare_iff ?_
    exact ih.mpr hd _ d.schema_mem_stages
  | extend d parent ihd ihp =>
    rw [stages, List.forall_mem_cons, List.forall_mem_append, ihd, ihp, Settled]
    refine and_iff_right_of_imp fun ⟨hd, hp⟩ => distinct_extend ?_ ?_
    · exact ihd.mpr hd _ d.schema_mem_stages
    · exact ihp.mpr hp _ parent.schema_mem_stages

theorem Settled.distinct (hd : d.Settled) : Distinct d.schema.fields :=
  d.forall_stages_distinct_iff.mpr hd _ d.schema_mem_stages

/-- **A name denotes the field that was declared last under it**, if no field clashes. -/
theorem Settled.find?_eq_latest? (hd : d.Settled) (m : String) :
    find? m d.schema.fields = d.latest? m := by
  induction d with
  | new name => rfl
  | field d key f ih =>
    rw [latest?, ← ih hd.1]
    exact find?_place (Settled.distinct hd) (Settled.distinct hd.1) m
  | extend d parent ihd ihp =>
    rw [latest?, ← ihd hd.1, ← ihp hd.2]
    exact find?_extend (Settled.distinct hd.1) (Settled.distinct hd.2) m

/-- **When names are distinct, and what they denote.** The names are distinct after each of the
declarations if no field clashes, and only then; and each name then denotes the field that was
declared last under it. -/
theorem distinct_iff_and_find?_eq (d : Declaration) :
    ((∀ s ∈ d.stages, Distinct s.fields) ↔ d.Settled) ∧
      (d.Settled → ∀ m, find? m d.schema.fields = d.latest? m) :=
  ⟨d.forall_stages_distinct_iff, Settled.find?_eq_latest?⟩

/-- Logs with a number that is declared twice, a field with a name of its own, and a parent that has
the number, too. -/
def redeclared : Declaration :=
  .extend
    (.field (.field (.field (.new "Logs") "id" (.ofKind .integer)) "at" ((Field.ofKind .text).named
      "time")) "id" (.ofKind .float))
    (.field (.field (.new "Base") "id" (.ofKind .text)) "host" (.ofKind .text))

/-- The number is the one declared last, and the host is that of the parent. -/
theorem distinct_iff_and_find?_eq_redeclared :
    redeclared.Settled ∧ (∀ s ∈ redeclared.stages, Distinct s.fields) ∧
      find? "id" redeclared.schema.fields = some ((Field.ofKind .float).named "id") ∧
      find? "host" redeclared.schema.fields = some ((Field.ofKind .text).named "host") ∧
      find? "at" redeclared.schema.fields = none := by
  obtain ⟨hdistinct, hfind⟩ := distinct_iff_and_find?_eq redeclared
  have hs : redeclared.Settled := hdistinct.mp (by decide)
  exact ⟨hs, hdistinct.mpr hs, hfind hs "id", hfind hs "host", hfind hs "at"⟩

/-- Logs with a text, and with a number that comes with the same name under another key. -/
def clashing : Declaration :=
  .field (.field (.new "Logs") "b" (.ofKind .text)) "a" ((Field.ofKind .integer).named "b")

/-- There are two fields of the name, and the older one is found. -/
theorem not_distinct_clashing : ¬ Distinct clashing.schema.fields ∧
    find? "b" clashing.schema.fields = some ((Field.ofKind .text).named "b") ∧
    clashing.latest? "b" = some ((Field.ofKind .integer).named "b") :=
  ⟨by decide, rfl, rfl⟩

end Declaration

end SearchCompiler.Schema
