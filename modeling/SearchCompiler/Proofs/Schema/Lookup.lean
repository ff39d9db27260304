import SearchCompiler.Proofs.Schema.Names

/-! # Looking up what was declared

A declared field is looked up by its name, and its descendants by the paths that lead to them. Of
several children under one key the first counts. A path is cut at its dots, though, so that this
needs a name and keys without dots. A field with a dot in its name is in the schema like any other,
but no path leads to it: what is looked up is what would be found without it.

* `Field.Leads`: the descendant that a path of keys denotes.
* `Schema.lookup?_declare`: what a declaration changes about the look-ups of a schema. -/

namespace SearchCompiler

theorem Assoc.get?_eq_some_iff_append {α : Type} {k : String} {v : α} {t : Assoc α} :
    get? k t = some v ↔
      ∃ before after, t = before ++ (k, v) :: after ∧ ∀ e ∈ before, e.1 ≠ k := by
  have hlookup : get? k t = t.lookup k := by
    induction t with
    | nil => rfl
    | cons e t ih =>
      obtain ⟨k', v'⟩ := e
      rw [get?_cons, List.lookup_cons, ih]
      by_cases hk : k = k'
      · simp [hk]
      · rw [if_neg hk, beq_eq_false_iff_ne.mpr hk]
  rw [hlookup, List.lookup_eq_some_iff]
  simp only [bne_iff_ne, ne_comm]

namespace Field

/-- **The descendant that a path of keys denotes.** Of several children under one key it is the
first. -/
inductive Leads : Field → List String → Field → Prop
  | self (f : Field) : Leads f [] f
  | child {f c g : Field} {key : String} {keys : List String} (before after : List (String × Field))
    (hc : f.children = before ++ (key, c) :: after) (hfirst : ∀ e ∈ before, e.1 ≠ key)
    (h : Leads c keys g) : Leads f (key :: keys) g

variable {f g : Field} {n : String} {keys : List String}

theorem leads_iff : f.Leads keys g ↔ f.descend? keys = some g := by
  induction keys generalizing f with
  | nil =>
    constructor
    · rintro ⟨⟩
      rfl
    · rintro ⟨⟩
      exact .self _
  | cons key keys ih =>
    simp only [descend?, Option.bind_eq_some_iff, child?, Assoc.get?_eq_some_iff_append, ← ih]
    constructor
    · rintro (_ | ⟨before, after, hc, hfirst, h⟩)
      exact ⟨_, ⟨before, after, hc, hfirst⟩, h⟩
    · rintro ⟨c, ⟨before, after, hc, hfirst⟩, h⟩
      exact .child before after hc hfirst h

/-- The children of a named field are those that it had before, under the same keys. -/
theorem child?_rename (f : Field) (n key : String) :
    (f.rename n).child? key = (f.child? key).map (·.rename (n ++ "." ++ key)) := by
  rw [child?, child?, children_rename]
  induction f.children with
  | nil => rfl
  | cons c cs ih =>
    obtain ⟨key', c⟩ := c
    rw [List.map_cons, Assoc.get?_cons, Assoc.get?_cons, ih]
    by_cases hkey : key = key' <;> simp [hkey]

/-- **Naming a field** names the descendants that it had before by their paths. -/
theorem descend?_rename (f : Field) (n : String) (keys : List String) :
    (f.rename n).descend? keys =
      (f.descend? keys).map (·.rename (".".intercalate (n :: keys))) := by
  rw [← pathTo_eq_intercalate]
  induction keys generalizing f n with
  | nil => rfl
  | cons key keys ih =>
    rw [descend?, descend?, child?_rename, Option.bind_map, Option.map_bind]
    exact congrArg _ (funext fun c => ih c _)

end Field

namespace Schema

variable {s : Schema} {f g : Field} {m n path : String} {fs : List Field}

/-! ### Declaring a field under its name -/

theorem self_mem_place (n : String) (f : Field) (fs : List Field) : f ∈ place n f fs := by
  induction fs with
  | nil => exact List.mem_cons_self
  | cons f' fs ih =>
    rw [place]
    split
    · exact List.mem_cons_self
    · exact List.mem_cons_of_mem _ ih

theorem find?_place_self (hf : f.name = some n) : find? n (place n f fs) = some f := by
  induction fs with
  | nil => simp [place, find?, hf]
  | cons g fs ih =>
    rw [place]
    split
    · simp [find?, hf]
    · next hg => simpa [find?, hg] using ih

theorem find?_place_of_ne (hf : f.name = some n) (hm : m ≠ n) :
    find? m (place n f fs) = find? m fs := by
  have hf' : (f.name == some m) = false := by simp [hf, hm.symm]
  induction fs with
  | nil => simp [place, find?, hf']
  | cons g fs ih =>
    rw [place]
    split
    · next hg => simp [find?, hg, hf, hm.symm]
    · unfold find? at ih ⊢
      rw [List.find?_cons, List.find?_cons, ih]

theorem fields_declare (hf : f.name = none) (s : Schema) (n : String) :
    (s.declare n f).fields = place n (f.rename n) s.fields := by
  rw [declare, Field.named, hf]

/-! ### Paths with dots -/

theorem not_mem_of_mem_segments {w : String} (h : w ∈ segments path) : '.' ∉ w.toList := by
  obtain ⟨cs, hcs, rfl⟩ := List.mem_map.mp h
  intro hdot
  rw [String.toList_ofList] at hdot
  exact absurd (Text.not_of_mem_splitAtAny hcs '.' hdot) (by decide)

/-- **What a declaration changes about the look-ups of a schema.** The field is in the schema. At a
path of segments without dots that begins with its name there is the descendant that the keys
denote, named by the path; at any other path there is what was there before. So a field with a dot in
its name is not looked up at any path. -/
theorem lookup?_declare (s : Schema) (n : String) (hf : f.name = none) :
    f.rename n ∈ (s.declare n f).fields ∧
    (∀ keys, (∀ w ∈ n :: keys, '.' ∉ w.toList) → ∀ g,
      (s.declare n f).lookup? (".".intercalate (n :: keys)) = some g ↔
        ∃ h, f.Leads keys h ∧ g = h.rename (".".intercalate (n :: keys))) ∧
    ∀ path, (∀ keys, path = ".".intercalate (n :: keys) → ∃ w ∈ n :: keys, '.' ∈ w.toList) →
      (s.declare n f).lookup? path = s.lookup? path := by
  refine ⟨?_, fun keys hdots g => ?_, fun path hpath => ?_⟩
  · rw [fields_declare hf]
    exact self_mem_place n (f.rename n) s.fields
  · rw [lookup?_intercalate _ hdots, fields_declare hf, find?_place_self (Field.name_rename n f),
      Option.bind_some, Field.descend?_rename, Option.map_eq_some_iff]
    simp only [Field.leads_iff, eq_comm]
  · rw [lookup?, lookup?]
    cases hsegments : segments path with
    | nil => rfl
    | cons head keys =>
      have hne : head ≠ n := by
        rintro rfl
        obtain ⟨w, hw, hdot⟩ := hpath keys (by rw [← hsegments, intercalate_segments])
        exact not_mem_of_mem_segments (hsegments ▸ hw) hdot
      simp only [fields_declare hf, find?_place_of_ne (Field.name_rename n f) hne]

/-- A user with two numbers and an address. -/
def user : Field := .ofKind (.object [("id", .ofKind .integer), ("id", .ofKind .float),
  ("home", .ofKind (.object [("city", .ofKind .text)]))])

/-- Logs with a user that was a text before. -/
def userLogs : Schema := ((Schema.new "Logs").declare "user" (.ofKind .text)).declare "user" user

/-- Of the two numbers the first is found, also after a truth value was declared under its path. -/
theorem lookup?_declare_user : user.name = none ∧ (Field.ofKind .boolean).name = none ∧
    userLogs.lookup? "user" = some (user.rename "user") ∧
    userLogs.lookup? "user.home.city" = some ((Field.ofKind .text).rename "user.home.city") ∧
    userLogs.lookup? "user.id" = some ((Field.ofKind .integer).rename "user.id") ∧
    (userLogs.declare "user.id" (.ofKind .boolean)).lookup? "user.id" = userLogs.lookup? "user.id" := by
  obtain ⟨-, hfound, -⟩ :=
    lookup?_declare ((Schema.new "Logs").declare "user" (.ofKind .text)) "user" (f := user) rfl
  obtain ⟨-, -, hothers⟩ := lookup?_declare userLogs "user.id" (f := .ofKind .boolean) rfl
  have hcity : user.Leads ["home", "city"] (.ofKind .text) :=
    .child [("id", .ofKind .integer), ("id", .ofKind .float)] _ rfl (by simp)
      (.child [] _ rfl (List.forall_mem_nil _) (.self _))
  have hid : user.Leads ["id"] (.ofKind .integer) :=
    .child [] _ rfl (List.forall_mem_nil _) (.self _)
  exact ⟨rfl, rfl, (hfound [] (by decide) _).mpr ⟨_, .self _, rfl⟩,
    (hfound ["home", "city"] (by decide) _).mpr ⟨_, hcity, rfl⟩,
    (hfound ["id"] (by decide) _).mpr ⟨_, hid, rfl⟩,
    hothers "user.id" fun keys _ => ⟨"user.id", List.mem_cons_self, by decide⟩⟩

/-- **A dot in a name or in a key** hides a field from every look-up. -/
theorem not_lookup?_declare_dotted :
    ((Schema.new "Logs").declare "user.id" (.ofKind .integer)).fields =
        [(Field.ofKind .integer).rename "user.id"] ∧
      ((Schema.new "Logs").declare "user.id" (.ofKind .integer)).lookup? "user.id" = none ∧
    (Field.ofKind (.object [("home.city", .ofKind .text)])).Leads ["home.city"] (.ofKind .text) ∧
      ((Schema.new "Logs").declare "user"
        (.ofKind (.object [("home.city", .ofKind .text)]))).lookup? "user.home.city" = none :=
  ⟨rfl, rfl, .child [] _ rfl (List.forall_mem_nil _) (.self _), rfl⟩

end Schema

end SearchCompiler
