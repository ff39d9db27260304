import Mathlib.Data.List.Induction
import SearchCompiler.Proofs.Field.Conforms
import SearchCompiler.Schema.Record

/-! # A record after any number of calls

A record starts with the defaults of its schema and is then set by one call after the other, of
which some may fail. A call looks the field up and validates the value before it stores anything, so
that one that fails leaves the record as it is. If the names of the fields are distinct, each field
is by itself: it has its default until a value is accepted, and from then on the last such value,
or, if it accumulates values, the list of its default and of all of them.

* `Record.after`, `Record.run`: a call on a record in place, and one call after the other.
* `Record.accepted`: what a field makes of the values that it accepts.
* `Field.held`: what a field holds after some accepted values.
* `Record.run_replays`: a record is known by its accepted values. -/

namespace SearchCompiler

/-! ### Fields with distinct names -/

namespace Schema

variable {s : Schema} {fs : List Field} {f : Field} {n : String}

/-- No two fields have the same name. -/
def Distinct (fs : List Field) : Prop := (fs.map Field.name).Nodup

instance (fs : List Field) : Decidable (Distinct fs) := by
  unfold Distinct; infer_instance

theorem find?_eq_none_iff : find? n fs = none ↔ ∀ f ∈ fs, f.name ≠ some n := by
  simp [find?]

theorem find?_eq_some_iff (hd : Distinct fs) : find? n fs = some f ↔ f ∈ fs ∧ f.name = some n := by
  refine ⟨fun h => ⟨List.mem_of_find?_eq_some h, name_of_find? h⟩, fun ⟨hf, hn⟩ => ?_⟩
  cases hg : find? n fs with
  | none => exact absurd hn (find?_eq_none_iff.mp hg f hf)
  | some g =>
    have hname : g.name = f.name := (name_of_find? hg).trans hn.symm
    have hsame : g = f := List.inj_on_of_nodup_map hd (List.mem_of_find?_eq_some hg) hf hname
    rw [hsame]

theorem Built.built_and_named (hs : s.Built) (h : f ∈ s.fields) :
    f.Built ∧ ∃ n, f.name = some n := by
  induction hs generalizing f with
  | new name => exact nomatch h
  | withIndex hs index ih => exact ih h
  | withDocType hs docType ih => exact ih h
  | @declare s g hs n hg ih =>
    rcases eq_or_mem_of_mem_place h with rfl | h
    · refine ⟨hg.named n, ?_⟩
      unfold Field.named
      split
      · next m hm => exact ⟨m, hm⟩
      · exact ⟨n, Field.name_rename n g⟩
    · exact ih h
  | extend hs hp ihs ihp =>
    rcases List.mem_append.mp h with h | h
    · exact ihp (List.mem_filter.mp h).1
    · exact ihs h

end Schema

/-! ### What a field holds -/

namespace Field

variable {f : Field}

/-- The default of a field in JSON. -/
def initial (f : Field) : Option Json := f.default.map Value.toJson

/-- **What a field holds** after some accepted values: its default if there are none, else all of
them after the default, or the last. -/
def held (f : Field) : List Json → Option Json
  | [] => f.initial
  | j :: js => if f.multi then some (.arr (f.initial.toList ++ j :: js)) else (j :: js).getLast?

theorem held_eq_none_iff (f : Field) (js : List Json) :
    f.held js = none ↔ f.default = none ∧ js = [] := by
  cases js with
  | nil => simp [held, initial]
  | cons j js => cases hm : f.multi <;> simp [held, hm]

/-- A default is no list, so a first value stands next to it. -/
theorem appended_initial (hf : f.Built) (j : Json) :
    Record.appended j f.initial = .arr (f.initial.toList ++ [j]) := by
  unfold initial
  cases hd : f.default with
  | none => rfl
  | some d =>
    have hlist : d.toJson.arr? = none := Value.arr?_of_isNormal (hf.isNormal_of_default hd)
    rw [Option.map_some]
    cases hj : d.toJson with
    | arr items => exact nomatch (hj ▸ hlist)
    | _ => rfl

/-- **One more value** is added to the list, or takes the place of what was there. -/
theorem held_concat (hf : f.Built) (js : List Json) (j : Json) :
    f.held (js ++ [j]) = some (if f.multi then Record.appended j (f.held js) else j) := by
  cases hm : f.multi with
  | false =>
    have hlast : (js ++ [j]).getLast? = some j := List.getLast?_concat
    cases js with
    | nil => simp [held, hm]
    | cons i js => simpa [held, hm] using hlast
  | true =>
    cases js with
    | nil => simp [held, hm, appended_initial hf]
    | cons i js => simp [held, hm, Record.appended]

end Field

namespace Record

open Outcome Schema

variable {r : Record} {s : Schema} {f : Field} {fs : List Field} {data : Assoc Json} {n : String}

/-! ### Defaults -/

theorem get?_addDefault_of_ne (h : f.name ≠ some n) :
    Assoc.get? n (addDefault data f) = Assoc.get? n data := by
  unfold addDefault
  split
  · next m d hm _ =>
    have hne : n ≠ m := fun hnm => h (hnm ▸ hm)
    exact Assoc.get?_insert_of_ne hne _ _
  · rfl

theorem get?_addDefault_self (h : f.name = some n) (hn : Assoc.get? n data = none) :
    Assoc.get? n (addDefault data f) = f.initial := by
  unfold addDefault Field.initial
  rw [h]
  cases f.default with
  | none => exact hn
  | some d => exact Assoc.get?_insert_self n _ _

theorem get?_addDefaults_of_ne (h : ∀ f ∈ fs, f.name ≠ some n) :
    Assoc.get? n (fs.foldl addDefault data) = Assoc.get? n data := by
  induction fs generalizing data with
  | nil => rfl
  | cons g fs ih =>
    rw [List.foldl_cons, ih fun f hf => h f (List.mem_cons_of_mem _ hf)]
    exact get?_addDefault_of_ne (h g List.mem_cons_self)

/-- Defaults are put under distinct names, so that none replaces another one. -/
theorem get?_addDefaults (hd : Distinct fs) (hf : f ∈ fs) (hn : f.name = some n)
    (h : Assoc.get? n data = none) : Assoc.get? n (fs.foldl addDefault data) = f.initial := by
  induction fs generalizing data with
  | nil => exact nomatch hf
  | cons g fs ih =>
    obtain ⟨hg, hd⟩ := List.nodup_cons.mp hd
    have hne : ∀ f' ∈ fs, f'.name ≠ g.name := fun f' hf' heq =>
      hg (heq ▸ List.mem_map_of_mem hf')
    rw [List.foldl_cons]
    rcases List.mem_cons.mp hf with rfl | hf
    · rw [get?_addDefaults_of_ne (hn ▸ hne)]
      exact get?_addDefault_self hn h
    · refine ih hd hf ?_
      rw [get?_addDefault_of_ne (hn ▸ (hne f hf).symm)]
      exact h

theorem sorted_addDefaults (h : data.Sorted) : (fs.foldl addDefault data).Sorted := by
  induction fs generalizing data with
  | nil => exact h
  | cons g fs ih =>
    refine ih ?_
    unfold addDefault
    split
    · exact h.insert _ _
    · exact h

/-! ### A call on a record in place -/

/-- **A call** that sets a field. -/
structure Call where
  name : String
  value : Value

/-- The declared field of a name. -/
def field (r : Record) (n : String) : Except FieldError Field :=
  match Schema.find? n r.schema.fields with
  | none => .error (.unknownField n)
  | some f => .ok f

/-- Stores a validated value under the name of its field. -/
def store (r : Record) (f : Field) (n : String) (j : Json) : Record :=
  { r with data := Assoc.insert n (if f.multi then appended j (r.get? n) else j) r.data }

/-- **Performs a call** on a record in place, one step after the other. -/
def Call.perform (c : Call) : ExceptT FieldError (StateM Record) Unit := do
  let f ← (← get).field c.name
  let w ← f.validate c.value
  modify (·.store f c.name w.toJson)

/-- The outcome of a call, and the record after it. -/
def after (r : Record) (c : Call) : Except FieldError Unit × Record := c.perform.run.run r

/-- The record after one call after the other, whether they fail or not. -/
def run (r : Record) (calls : List Call) : Record := calls.foldl (fun r c => (r.after c).2) r

theorem set_eq (r : Record) (n : String) (v : Value) :
    r.set n v = r.field n >>= fun f => f.validate v >>= fun w => .ok (r.store f n w.toJson) := by
  unfold set field
  cases Schema.find? n r.schema.fields with
  | none => rfl
  | some f => rfl

/-- **A call in place** gives the record that is set, and otherwise the one it found. -/
theorem after_eq (r : Record) (c : Call) : r.after c = settle r (r.set c.name c.value) := by
  rw [set_eq]
  exact (run_get_bind _).trans (run_check_bind _ fun f => run_check_bind _ fun w => rfl)

/-- A call fails if there is no field of its name, or if the field refuses the value; then the
record is as it was. -/
theorem after_of_error {c : Call} {e : FieldError} (h : (r.after c).1 = .error e) :
    (r.after c).2 = r := by
  rw [after_eq] at h ⊢
  exact settle_of_error h

/-- **All that a call can do**: it is refused, or the field of its name stores the value. -/
theorem after_cases (r : Record) (c : Call) :
    ((∃ e, (r.after c).1 = .error e) ∧ (r.after c).2 = r ∧
        ∀ f, find? c.name r.schema.fields = some f → ∃ e, f.validate c.value = .error e) ∨
      ∃ f w, find? c.name r.schema.fields = some f ∧ f.validate c.value = .ok w ∧
        r.after c = (.ok (), r.store f c.name w.toJson) := by
  rw [after_eq, set_eq, field]
  cases hf : find? c.name r.schema.fields with
  | none => exact Or.inl ⟨⟨_, rfl⟩, rfl, fun f h => nomatch h⟩
  | some f =>
    cases hv : f.validate c.value with
    | error e =>
      refine Or.inl ?_
      rw [ok_bind, hv]
      refine ⟨⟨e, rfl⟩, rfl, fun g hg => ⟨e, ?_⟩⟩
      obtain rfl := Option.some.inj hg
      exact hv
    | ok w =>
      refine Or.inr ⟨f, w, rfl, hv, ?_⟩
      rw [ok_bind, hv]
      rfl

/-- **When a call succeeds.** -/
theorem after_eq_ok_iff (hd : Distinct r.schema.fields) (c : Call) : (r.after c).1 = .ok () ↔
    ∃ f ∈ r.schema.fields, f.name = some c.name ∧ ∃ w, f.validate c.value = .ok w := by
  rcases after_cases r c with ⟨⟨e, he⟩, -, hrefused⟩ | ⟨f, w, hf, hw, hr⟩
  · refine iff_of_false (fun h => nomatch he.symm.trans h) fun ⟨f, hf, hn, w, hw⟩ => ?_
    obtain ⟨e, he⟩ := hrefused f ((find?_eq_some_iff hd).mpr ⟨hf, hn⟩)
    exact nomatch he.symm.trans hw
  · obtain ⟨hmem, hn⟩ := (find?_eq_some_iff hd).mp hf
    exact iff_of_true (congrArg Prod.fst hr) ⟨f, hmem, hn, w, hw⟩

/-- **What every run keeps**: what storing a value under the name of its field keeps. -/
theorem run_keeps {P : Record → Prop} (h : P r) (calls : List Call)
    (hstore : ∀ r' f n j, r'.schema = r.schema → f ∈ r.schema.fields → f.name = some n → P r' →
      P (r'.store f n j)) : (r.run calls).schema = r.schema ∧ P (r.run calls) := by
  induction calls using List.reverseRecOn with
  | nil => exact ⟨rfl, h⟩
  | append_singleton calls c ih =>
    obtain ⟨hs, ih⟩ := ih
    rw [run, List.foldl_concat, ← run]
    rcases after_cases (r.run calls) c with ⟨-, hr, -⟩ | ⟨f, w, hf, -, hr⟩
    · rw [hr]
      exact ⟨hs, ih⟩
    · rw [hr]
      rw [hs] at hf
      exact ⟨hs, hstore _ f _ _ hs (List.mem_of_find?_eq_some hf) (name_of_find? hf) ih⟩

theorem schema_run (r : Record) (calls : List Call) : (r.run calls).schema = r.schema :=
  (run_keeps (P := fun _ => True) trivial calls fun _ _ _ _ _ _ _ h => h).1

/-! ### Accepted values -/

/-- **What a field makes of a call**, if it is for this field and the value is accepted. -/
def accepted? (f : Field) (c : Call) : Option Json :=
  if f.name = some c.name then (f.validate c.value).toOption.map Value.toJson else none

/-- What a field makes of the values that it accepts, in order. -/
def accepted (f : Field) (calls : List Call) : List Json := calls.filterMap (accepted? f)

/-- **One call, seen at one field.** -/
theorem get?_after (hd : Distinct r.schema.fields) (hf : f ∈ r.schema.fields)
    (hn : f.name = some n) (c : Call) : (r.after c).2.get? n =
      match accepted? f c with
      | none => r.get? n
      | some j => some (if f.multi then appended j (r.get? n) else j) := by
  have hfind : find? n r.schema.fields = some f := (find?_eq_some_iff hd).mpr ⟨hf, hn⟩
  by_cases hc : f.name = some c.name
  · obtain rfl := Option.some.inj (hn.symm.trans hc)
    rw [accepted?, if_pos hc]
    rcases after_cases r c with ⟨-, hr, hrefused⟩ | ⟨g, w, hg, hw, hr⟩
    · obtain ⟨e, he⟩ := hrefused f hfind
      rw [hr, he]
      rfl
    · obtain rfl := Option.some.inj (hfind.symm.trans hg)
      rw [hr, hw]
      exact Assoc.get?_insert_self _ _ _
  · rw [accepted?, if_neg hc]
    rcases after_cases r c with ⟨-, hr, -⟩ | ⟨g, w, hg, hw, hr⟩
    · rw [hr]
    · have hne : n ≠ c.name := fun h => hc (h ▸ hn)
      rw [hr]
      exact Assoc.get?_insert_of_ne hne _ _

/-- **A field holds** what its accepted values come to. -/
theorem get?_run (hd : Distinct s.fields) (hf : f ∈ s.fields) (hb : f.Built) (hn : f.name = some n)
    (calls : List Call) : ((new s).run calls).get? n = f.held (accepted f calls) := by
  induction calls using List.reverseRecOn with
  | nil => exact get?_addDefaults hd hf hn rfl
  | append_singleton calls c ih =>
    have hs : ((new s).run calls).schema = s := schema_run (new s) calls
    rw [run, List.foldl_concat, ← run, get?_after (hs.symm ▸ hd) (hs.symm ▸ hf) hn, accepted,
      List.filterMap_append, ← accepted, ih]
    cases hc : accepted? f c with
    | none => simp [hc]
    | some j => simp [hc, Field.held_concat hb]

theorem get?_run_of_ne (h : ∀ f ∈ s.fields, f.name ≠ some n) (calls : List Call) :
    ((new s).run calls).get? n = none := by
  have hnew : (new s).get? n = none := get?_addDefaults_of_ne h
  refine (run_keeps (P := fun r => r.get? n = none) hnew calls fun r' f m j _ hf hm hr' => ?_).2
  have hne : n ≠ m := fun hnm => h f hf (hnm ▸ hm)
  exact (Assoc.get?_insert_of_ne hne _ _).trans hr'

theorem exists_field_of_mem_keys {calls : List Call}
    (h : n ∈ Assoc.keys ((new s).run calls).data) : ∃ f ∈ s.fields, f.name = some n := by
  by_contra hnone
  push Not at hnone
  have hget : ((new s).run calls).get? n = none := get?_run_of_ne hnone calls
  have hsome : (((new s).run calls).get? n).isSome = true := Assoc.isSome_get?_iff.mpr h
  exact nomatch hget ▸ hsome

theorem sorted_run (calls : List Call) : ((new s).run calls).data.Sorted := by
  have hnew : (new s).data.Sorted := sorted_addDefaults List.Pairwise.nil
  exact (run_keeps (P := fun r => r.data.Sorted) hnew calls fun r' f n j _ _ _ h => h.insert _ _).2

/-! ### The document -/

theorem missing?_eq_none_iff : r.missing? = none ↔
    ∀ f ∈ r.schema.fields, f.required = true → ∀ n, f.name = some n → r.get? n ≠ none := by
  simp only [missing?, List.findSome?_eq_none_iff]
  refine forall₂_congr fun f _ => ?_
  cases f.required <;> cases f.name <;>
    simp [Option.filter, Assoc.contains, get?]

/-- A document has what the fields hold. -/
theorem eq_of_toDocument {doc : Json} (h : r.toDocument = .ok doc) : doc = .obj r.data := by
  unfold toDocument at h
  split at h
  · exact nomatch h
  · exact (Except.ok.inj h).symm

/-- A document is refused if a required field holds nothing. -/
theorem exists_error_toDocument_iff (hs : r.schema.Built) :
    (∃ e, r.toDocument = .error e) ↔
      ∃ f ∈ r.schema.fields, f.required = true ∧ ∀ n, f.name = some n → r.get? n = none := by
  have hnames : ∀ f ∈ r.schema.fields, ∃ n, f.name = some n := fun f hf =>
    (hs.built_and_named hf).2
  have hdoc : (∃ e, r.toDocument = .error e) ↔ r.missing? ≠ none := by
    unfold toDocument
    cases r.missing? <;> simp
  rw [hdoc, Ne, missing?_eq_none_iff]
  push Not
  refine exists_congr fun f => and_congr_right fun hf => and_congr_right fun _ => ?_
  obtain ⟨n, hn⟩ := hnames f hf
  simp [hn]

/-! ### Any number of calls -/

/-- **A record is known by its accepted values.** After any number of calls the next one succeeds if
there is a field of its name which accepts the value, and leaves the record as it is if not; every
field holds what its accepted values come to; and the document is there unless a required field
has neither a default nor an accepted value. -/
theorem run_replays (hs : s.Built) (hd : Distinct s.fields) (calls : List Call) :
    let r := (new s).run calls
    (∀ c, (r.after c).1 = .ok () ↔
        ∃ f ∈ s.fields, f.name = some c.name ∧ ∃ w, f.validate c.value = .ok w) ∧
      (∀ c e, (r.after c).1 = .error e → (r.after c).2 = r) ∧
      (∀ f ∈ s.fields, ∀ n, f.name = some n → r.get? n = f.held (accepted f calls)) ∧
      Assoc.Sorted r.data ∧ (∀ n ∈ Assoc.keys r.data, ∃ f ∈ s.fields, f.name = some n) ∧
      ((∃ e, r.toDocument = .error e) ↔
        ∃ f ∈ s.fields, f.required = true ∧ f.default = none ∧ accepted f calls = []) ∧
      ∀ doc, r.toDocument = .ok doc → doc = .obj r.data := by
  intro r
  have hschema : r.schema = s := schema_run (new s) calls
  have hget : ∀ f ∈ s.fields, ∀ n, f.name = some n → r.get? n = f.held (accepted f calls) :=
    fun f hf n hn => get?_run hd hf (hs.built_and_named hf).1 hn calls
  refine ⟨fun c => ?_, fun c e => after_of_error, hget, sorted_run calls,
    fun n => exists_field_of_mem_keys, ?_, fun doc => eq_of_toDocument⟩
  · rw [after_eq_ok_iff (hschema ▸ hd), hschema]
  · rw [exists_error_toDocument_iff (hschema ▸ hs), hschema]
    refine exists_congr fun f => and_congr_right fun hf => and_congr_right fun _ => ?_
    obtain ⟨n, hn⟩ := (hs.built_and_named hf).2
    have hheld : r.get? n = none ↔ f.default = none ∧ accepted f calls = [] := by
      rw [hget f hf n hn, Field.held_eq_none_iff]
    simp [hn, hheld]

/-- A field that accumulates texts after a default. -/
def tags : Field := { Field.ofKind .text with multi := true, default := some (.str "new") }

/-- Logs with a line number, which has to be given, and tags. -/
def logs : Schema :=
  ((Schema.new "Logs").declare "lineno" (Field.ofKind .integer).asRequired).declare "tags" tags

/-- Calls for no field and with a value that is refused change nothing; the first tag stands behind
the default. -/
theorem run_replays_logs : logs.Built ∧ Distinct logs.fields ∧
    let r := (new logs).run
      [⟨"tags", .int 2⟩, ⟨"lineno", .str "7"⟩, ⟨"nope", .int 1⟩, ⟨"lineno", .str "x"⟩]
    r.get? "tags" = some (.arr [.str "new", .str "2"]) ∧ r.get? "lineno" = some (.num (.int 7)) ∧
      ∃ doc, r.toDocument = .ok doc := by
  have hdefault : (Field.ofKind .text).asMulti.withDefault (.str "new") = .ok tags := rfl
  have htags : tags.Built := (Field.Built.ofKind .text).multi.withDefault hdefault
  have hs : logs.Built :=
    ((Schema.Built.new "Logs").declare "lineno" (Field.Built.ofKind .integer).required).declare
      "tags" htags
  have hd : Distinct logs.fields := by decide
  obtain ⟨-, -, hget, -, -, hdoc, -⟩ := run_replays hs hd
    [⟨"tags", .int 2⟩, ⟨"lineno", .str "7"⟩, ⟨"nope", .int 1⟩, ⟨"lineno", .str "x"⟩]
  have hlineno : ((Field.ofKind .integer).asRequired.named "lineno") ∈ logs.fields :=
    List.mem_cons_self
  have htags : tags.named "tags" ∈ logs.fields := List.mem_cons_of_mem _ List.mem_cons_self
  refine ⟨hs, hd, hget _ htags _ rfl, hget _ hlineno _ rfl, ?_⟩
  cases hr : ((new logs).run _).toDocument with
  | ok doc => exact ⟨doc, rfl⟩
  | error e =>
    obtain ⟨f, hf, hrequired, -, hnone⟩ := hdoc.mp ⟨e, hr⟩
    rcases List.mem_cons.mp hf with rfl | hf
    · exact nomatch hnone
    · obtain rfl := List.mem_singleton.mp hf
      exact nomatch hrequired

end Record

end SearchCompiler
