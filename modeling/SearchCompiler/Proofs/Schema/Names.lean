import SearchCompiler.Proofs.Assoc.Sorted
import SearchCompiler.Proofs.Outcome
import SearchCompiler.Proofs.Text.Pieces
import SearchCompiler.Schema.Basic

/-! # Names of declared fields

A field is named once, and its descendants with it: each gets the path that leads to it. A field
that comes to a schema with a name keeps that one, but then it is also looked up by it. So whatever
a schema has at a dotted path bears the path as its name.

* `Field.Built`, `Schema.Built`: the fields and the schemas that can be declared.
* `Field.IsQualified`: the names of all descendants go on from that of the field.
* `Field.Reaches`: the descendants of a field, with the keys that lead to them.
* `Schema.lookup?_intercalate`: the field at a path, by the segments of the path.
* `Schema.Built.named_by_paths`: descendants and what is looked up have their paths as names. -/

namespace SearchCompiler

/-! ### Paths -/

theorem Schema.intercalate_segments (path : String) : ".".intercalate (segments path) = path := by
  have hchars : List.intercalate ['.'] (Text.splitAtAny (· == '.') path.toList) = path.toList := by
    rw [Text.splitAtAny_eq_splitOnP]
    exact List.intercalate_splitOn '.'
  have hlists : (segments path).map String.toList = Text.splitAtAny (· == '.') path.toList := by
    rw [segments, List.map_map]
    exact List.map_id'' (fun _ => String.toList_ofList) _
  rw [← String.toList_inj, String.toList_intercalate, hlists]
  exact hchars

theorem Schema.segments_intercalate {ws : List String} (hne : ws ≠ [])
    (h : ∀ w ∈ ws, '.' ∉ w.toList) : segments (".".intercalate ws) = ws := by
  have hdots : ∀ cs ∈ ws.map String.toList, '.' ∉ cs := by
    intro cs hcs
    obtain ⟨w, hw, rfl⟩ := List.mem_map.mp hcs
    exact h w hw
  have hpieces : (['.'].intercalate (ws.map String.toList)).splitOn '.' = ws.map String.toList :=
    List.splitOn_intercalate '.' hdots (List.map_eq_nil_iff.not.mpr hne)
  rw [segments, Text.splitAtAny_eq_splitOnP, String.toList_intercalate]
  refine (congrArg (List.map String.ofList) hpieces).trans ?_
  rw [List.map_map]
  exact List.map_id'' (fun _ => String.ofList_toList) _

/-- The path of a descendant: the keys that lead to it after the name of the field. -/
def Field.pathTo (n : String) (keys : List String) : String :=
  keys.foldl (fun n key => n ++ "." ++ key) n

theorem Field.intercalate_append_cons (n key : String) (keys : List String) :
    ".".intercalate ((n ++ key) :: keys) = n ++ ".".intercalate (key :: keys) := by
  cases keys with
  | nil => rw [String.intercalate_singleton, String.intercalate_singleton]
  | cons key' keys =>
    rw [String.intercalate_cons_cons, String.intercalate_cons_cons]
    simp only [String.append_assoc]

theorem Field.pathTo_eq_intercalate (n : String) (keys : List String) :
    pathTo n keys = ".".intercalate (n :: keys) := by
  induction keys generalizing n with
  | nil => exact String.intercalate_singleton.symm
  | cons key keys ih =>
    have hpath : pathTo n (key :: keys) = pathTo (n ++ "." ++ key) keys := rfl
    rw [hpath, ih, intercalate_append_cons, String.intercalate_cons_cons]

/-! ### Qualified names -/

namespace Field

mutual

theorem rename_rename (m n : String) : ∀ f : Field, (f.rename m).rename n = f.rename n
  | ⟨_, kind, _, _, _⟩ => by rw [rename, rename, rename, renameKind_renameKind m n kind]

theorem renameKind_renameKind (m n : String) :
    ∀ kind : Kind Field, renameKind n (renameKind m kind) = renameKind n kind
  | .integer | .float | .boolean | .text | .timestamp _ => by simp only [renameKind]
  | .object cs => by rw [renameKind, renameKind, renameKind, renameChildren_renameChildren m n cs]

theorem renameChildren_renameChildren (m n : String) : ∀ cs : List (String × Field),
    renameChildren n (renameChildren m cs) = renameChildren n cs
  | [] => by simp only [renameChildren]
  | (key, child) :: cs => by
    rw [renameChildren, renameChildren, renameChildren, rename_rename _ _ child,
      renameChildren_renameChildren m n cs]

end

/-- **Do the names of all descendants go on from that of the field?** Naming it once more by its own
name then changes nothing. -/
def IsQualified (f : Field) : Prop := ∀ n, f.name = some n → f.rename n = f

theorem isQualified_rename (n : String) (f : Field) : (f.rename n).IsQualified := by
  intro m hm
  obtain rfl : n = m := Option.some.inj ((name_rename n f).symm.trans hm)
  exact rename_rename n n f

theorem IsQualified.congr {f g : Field} (hf : f.IsQualified) (hname : g.name = f.name)
    (hkind : g.kind = f.kind) : g.IsQualified := by
  intro n hn
  have hf := hf n (hname ▸ hn)
  obtain ⟨name, kind, _, _, _⟩ := f
  obtain ⟨_, _, _, _, _⟩ := g
  obtain rfl := hname
  obtain rfl := hkind
  simp only [rename, mk.injEq, and_true] at hf ⊢
  exact hf

theorem children_rename (n : String) (f : Field) :
    (f.rename n).children = f.children.map fun c => (c.1, c.2.rename (n ++ "." ++ c.1)) := by
  obtain ⟨_, kind, _, _, _⟩ := f
  cases kind with
  | object cs => exact renameChildren_eq_map n cs
  | _ => rfl

/-- **The descendants of a field**, with the keys that lead to them. -/
inductive Reaches : Field → List String → Field → Prop
  | self (f : Field) : Reaches f [] f
  | child {f c g : Field} {key : String} {keys : List String} (hc : (key, c) ∈ f.children)
    (h : Reaches c keys g) : Reaches f (key :: keys) g

variable {f c g : Field} {n key : String} {keys : List String}

theorem reaches_of_descend? (h : f.descend? keys = some g) : f.Reaches keys g := by
  induction keys generalizing f with
  | nil =>
    obtain rfl := Option.some.inj h
    exact .self f
  | cons key keys ih =>
    obtain ⟨c, hc, h⟩ := Option.bind_eq_some_iff.mp h
    exact .child (Assoc.mem_of_get? hc) (ih h)

namespace IsQualified

/-- **One step down**: a child of a qualified field is qualified by its key. -/
theorem of_mem_children (hf : f.IsQualified) (hn : f.name = some n)
    (hc : (key, c) ∈ f.children) : c.name = some (n ++ "." ++ key) ∧ c.IsQualified := by
  rw [← hf n hn, children_rename] at hc
  obtain ⟨⟨key', c'⟩, -, hc⟩ := List.mem_map.mp hc
  obtain ⟨rfl, rfl⟩ := Prod.mk.inj hc
  exact ⟨name_rename _ _, isQualified_rename _ _⟩

/-- **A descendant of a qualified field** has the path that leads to it as its name. -/
theorem name_of_reaches (hf : f.IsQualified) (hn : f.name = some n)
    (h : f.Reaches keys g) : g.name = some (".".intercalate (n :: keys)) := by
  rw [← pathTo_eq_intercalate]
  induction h generalizing n with
  | self f => exact hn
  | child hc h ih =>
    obtain ⟨hname, hqualified⟩ := hf.of_mem_children hn hc
    exact ih hqualified hname

end IsQualified

/-! ### Declared fields -/

/-- **The fields that can be made**: fields of any kind, with a name, marked, and with a default
that they accept. -/
inductive Built : Field → Prop
  | ofKind (kind : Kind Field) : Built (.ofKind kind)
  | named {f : Field} (hf : Built f) (n : String) : Built (f.named n)
  | multi {f : Field} (hf : Built f) : Built f.asMulti
  | required {f : Field} (hf : Built f) : Built f.asRequired
  | withDefault {f g : Field} {v : Value} (hf : Built f) (h : f.withDefault v = .ok g) : Built g

/-- Fields are qualified, however they are made. -/
theorem Built.isQualified {f : Field} (hf : f.Built) : f.IsQualified := by
  induction hf with
  | ofKind kind => exact fun n hn => nomatch hn
  | @named f hf n ih =>
    unfold Field.named
    split
    · exact ih
    · exact isQualified_rename n f
  | multi hf ih => exact ih.congr rfl rfl
  | required hf ih => exact ih.congr rfl rfl
  | @withDefault f g v hf h ih =>
    obtain ⟨d, -, h⟩ := Outcome.bind_eq_ok.mp h
    rw [← Except.ok.inj h]
    exact ih.congr rfl rfl

end Field

namespace Schema

/-- **The schemas that can be declared.** -/
inductive Built : Schema → Prop
  | new (name : String) : Built (.new name)
  | withIndex {s : Schema} (hs : Built s) (index : String) : Built (s.withIndex index)
  | withDocType {s : Schema} (hs : Built s) (docType : String) : Built (s.withDocType docType)
  | declare {s : Schema} {f : Field} (hs : Built s) (n : String) (hf : f.Built) :
    Built (s.declare n f)
  | extend {s parent : Schema} (hs : Built s) (hp : Built parent) : Built (s.extend parent)

theorem eq_or_mem_of_mem_place {n : String} {f g : Field} {fs : List Field}
    (h : g ∈ place n f fs) : g = f ∨ g ∈ fs := by
  induction fs with
  | nil => exact Or.inl (List.mem_singleton.mp h)
  | cons f' fs ih =>
    rw [place] at h
    split at h
    · rcases List.mem_cons.mp h with h | h
      · exact Or.inl h
      · exact Or.inr (List.mem_cons_of_mem _ h)
    · rcases List.mem_cons.mp h with rfl | h
      · exact Or.inr List.mem_cons_self
      · exact (ih h).imp_right (List.mem_cons_of_mem _)

theorem name_of_find? {n : String} {f : Field} {fs : List Field} (h : find? n fs = some f) :
    f.name = some n := by
  have hp := List.find?_some h
  exact eq_of_beq hp

namespace Built

variable {s : Schema} {f : Field}

theorem isQualified (hs : s.Built) (h : f ∈ s.fields) : f.IsQualified := by
  induction hs generalizing f with
  | new name => exact nomatch h
  | withIndex hs index ih => exact ih h
  | withDocType hs docType ih => exact ih h
  | declare hs n hf ih =>
    rcases eq_or_mem_of_mem_place h with rfl | h
    · exact (hf.named n).isQualified
    · exact ih h
  | extend hs hp ihs ihp =>
    rcases List.mem_append.mp h with h | h
    · exact ihp (List.mem_filter.mp h).1
    · exact ihs h

/-- The field at a path has the path as its name. -/
theorem name_of_lookup? (hs : s.Built) {path : String} (h : s.lookup? path = some f) :
    f.name = some path := by
  unfold lookup? at h
  cases hpath : segments path with
  | nil => exact nomatch hpath ▸ h
  | cons head keys =>
    rw [hpath] at h
    obtain ⟨g, hg, h⟩ := Option.bind_eq_some_iff.mp h
    have hq : g.IsQualified := hs.isQualified (List.mem_of_find?_eq_some hg)
    rw [hq.name_of_reaches (name_of_find? hg) (Field.reaches_of_descend? h), ← hpath,
      intercalate_segments]

end Built

/-- **The field at a path** of segments without dots: the field of the first segment, then its
descendant along the others. -/
theorem lookup?_intercalate (s : Schema) {n : String} {keys : List String}
    (h : ∀ w ∈ n :: keys, '.' ∉ w.toList) :
    s.lookup? (".".intercalate (n :: keys)) = (find? n s.fields).bind (·.descend? keys) := by
  rw [lookup?, segments_intercalate (List.cons_ne_nil n keys) h]

/-- **Names are paths.** A descendant of a field with a name has the path that leads to it as its
name, in whatever order the field and its children were made and named; and so has whatever is
looked up in a schema. -/
theorem Built.named_by_paths {f : Field} {s : Schema} (hf : f.Built) (hs : s.Built) :
    (∀ n keys g, f.name = some n → f.Reaches keys g →
        g.name = some (".".intercalate (n :: keys))) ∧
      ∀ path g, s.lookup? path = some g → g.name = some path :=
  ⟨fun _ _ _ hn h => hf.isQualified.name_of_reaches hn h, fun _ _ h => hs.name_of_lookup? h⟩

/-- A home with a city that had a name before. -/
def home : Field :=
  (Field.ofKind (.object [("city", (Field.ofKind .text).named "town")])).named "home"

/-- People with a home, and with what their parent has under a name of its own. -/
def people : Schema :=
  ((Schema.new "People").declare "user" (Field.ofKind (.object [("address", home)]))).extend
    ((Schema.new "Base").declare "id" ((Field.ofKind .integer).named "key"))

/-- The city is named below the home, and once more below the user. -/
theorem Built.named_by_paths_people : home.Built ∧ people.Built ∧
    (∃ city, home.Reaches ["city"] city ∧ city.name = some "home.city") ∧
    (∃ city, people.lookup? "user.address.city" = some city ∧
        city.name = some "user.address.city") ∧
      ∃ id, people.lookup? "key" = some id ∧ id.name = some "key" := by
  have hhome : home.Built := (Field.Built.ofKind _).named "home"
  have hpeople : people.Built :=
    ((Built.new "People").declare "user" (.ofKind _)).extend
      ((Built.new "Base").declare "id" ((Field.Built.ofKind .integer).named "key"))
  obtain ⟨hnames, hpaths⟩ := named_by_paths hhome hpeople
  have hcity : home.Reaches ["city"] _ := .child List.mem_cons_self (.self _)
  have hdots : ∀ w ∈ ["user", "address", "city"], '.' ∉ w.toList := by decide
  have hlookup := people.lookup?_intercalate hdots
  exact ⟨hhome, hpeople, ⟨_, hcity, hnames "home" _ _ rfl hcity⟩,
    ⟨_, hlookup, hpaths _ _ hlookup⟩, ⟨_, rfl, hpaths "key" _ rfl⟩⟩

end Schema

end SearchCompiler
