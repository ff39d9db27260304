import SearchCompiler.Proofs.Assoc.Sorted
import SearchCompiler.Proofs.Schema.Names

/-! # Normalized values have the type of their field

A field has a type: integers, floats, two words, texts, moments in their UTC form, or mappings whose
members have the types of the children. What a field accepts it turns into a value of its type. A
default stands in a mapping as it is, without being validated there, so it has to be of the type of
its child from the moment it was declared; naming the child later does not matter, since a name
appears in errors only.

* `Field.Conforms`: the values of the type of a field.
* `Field.isNormal_of_validate`: no normalized value is null or a list.
* `Field.Declared`: the fields that can be declared, with children that can be, and so on.
* `Field.ok_iff_of_rename`: a name does not change what a field accepts.
* `Field.Declared.conforms_of_validate`: a normalized value has the type of its field. -/

namespace SearchCompiler

/-! ### The type of a field -/

mutual

/-- **The values of the type of a field.** -/
def Field.Conforms : Field → Value → Prop
  | ⟨_, kind, _, _, _⟩, w => kind.Conforms w

/-- The values of a kind. A mapping has the keys of children only, and under each of them the JSON
form of a value of a child with this key. -/
def Kind.Conforms : Kind Field → Value → Prop
  | .integer, w => ∃ n, w = .int n
  | .float, w => ∃ x, w = .float x
  | .boolean, w => w = .str "true" ∨ w = .str "false"
  | .text, w => ∃ s, w = .str s
  | .timestamp _, w => ∃ t : DateTime, w = .str t.utcText
  | .object children, w =>
    ∃ members : Assoc Json, w = .json (.obj members) ∧ members.Sorted ∧
      ∀ e ∈ members, conformsUnder children e.1 e.2

/-- Does a child with this key have a value with this JSON form? -/
def conformsUnder : List (String × Field) → String → Json → Prop
  | [], _, _ => False
  | (k, child) :: rest, key, j =>
    (k = key ∧ ∃ w, child.Conforms w ∧ j = w.toJson) ∨ conformsUnder rest key j

end

theorem conformsUnder_iff {children : List (String × Field)} {key : String} {j : Json} :
    conformsUnder children key j ↔
      ∃ child, (key, child) ∈ children ∧ ∃ w, child.Conforms w ∧ j = w.toJson := by
  induction children with
  | nil => simp [conformsUnder]
  | cons c rest ih =>
    obtain ⟨k, child⟩ := c
    rw [conformsUnder, ih]
    constructor
    · rintro (⟨rfl, h⟩ | ⟨child', hmem, h⟩)
      · exact ⟨child, List.mem_cons_self, h⟩
      · exact ⟨child', List.mem_cons_of_mem _ hmem, h⟩
    · rintro ⟨child', hmem, h⟩
      rcases List.mem_cons.mp hmem with heq | hmem
      · cases heq
        exact Or.inl ⟨rfl, h⟩
      · exact Or.inr ⟨child', hmem, h⟩

theorem Field.conforms_iff {f : Field} {w : Value} : f.Conforms w ↔ f.kind.Conforms w := by
  obtain ⟨_, kind, _, _, _⟩ := f
  rw [Conforms]

/-! ### What the kinds give -/

namespace Validate

variable {v w : Value} {reason : Rejection}

theorem blame_eq_ok_iff {α : Type} {label kind : String} {y : Except Rejection α} {a : α} :
    blame label kind v y = .ok a ↔ y = .ok a := by
  cases y <;> simp [blame]

/-- A value that was read by a function is one of its values. -/
theorem exists_of_ofOption {α : Type} {f : α → Value} {a? : Option α}
    (h : ofOption reason (a?.map f) = .ok w) : ∃ a, w = f a := by
  cases a? with
  | none => exact nomatch h
  | some a => exact ⟨a, (Except.ok.inj h).symm⟩

theorem exists_int_of_integer (h : integer v = .ok w) : ∃ n, w = .int n := by
  have htext : ∀ s, integerText s = .ok w → ∃ n, w = .int n := fun s => exists_of_ofOption
  have hcut : ∀ x, truncated x = .ok w → ∃ n, w = .int n := fun x => exists_of_ofOption
  unfold integer at h
  split at h
  · exact ⟨_, (Except.ok.inj h).symm⟩
  · split at h
    · exact hcut _ h
    · exact nomatch h
  · exact ⟨_, (Except.ok.inj h).symm⟩
  · exact htext _ h
  · split at h
    · exact ⟨_, (Except.ok.inj h).symm⟩
    · exact hcut _ h
  · exact htext _ h
  · exact nomatch h

theorem exists_float_of_float (h : float v = .ok w) : ∃ x, w = .float x := by
  have htext : ∀ s, floatText s = .ok w → ∃ x, w = .float x := fun s => exists_of_ofOption
  unfold float at h
  split at h
  · exact ⟨_, (Except.ok.inj h).symm⟩
  · exact ⟨_, (Except.ok.inj h).symm⟩
  · exact ⟨_, (Except.ok.inj h).symm⟩
  · exact htext _ h
  · exact ⟨_, (Except.ok.inj h).symm⟩
  · exact htext _ h
  · exact nomatch h

theorem truthWord_eq_or (b : Bool) : truthWord b = .str "true" ∨ truthWord b = .str "false" := by
  cases b
  · exact Or.inr rfl
  · exact Or.inl rfl

theorem exists_truthWord_of_boolean (h : boolean v = .ok w) : ∃ b, w = truthWord b := by
  have htext : ∀ s, booleanText s = .ok w → ∃ b, w = truthWord b := by
    intro s h
    simp only [booleanText] at h
    split at h
    · exact ⟨true, (Except.ok.inj h).symm⟩
    · split at h
      · exact ⟨false, (Except.ok.inj h).symm⟩
      · exact nomatch h
  unfold boolean at h
  split at h
  · exact ⟨_, (Except.ok.inj h).symm⟩
  · exact ⟨_, (Except.ok.inj h).symm⟩
  · exact htext _ h
  · exact htext _ h
  · exact ⟨_, (Except.ok.inj h).symm⟩

theorem exists_moment_of_timestamp {zone : Zone} (h : timestamp zone v = .ok w) :
    ∃ t, w = moment t := by
  have hplaced : ∀ t, placed zone t = .ok w → ∃ t, w = moment t := fun t => exists_of_ofOption
  have hmillis : ∀ n, millis n = .ok w → ∃ t, w = moment t := fun n => exists_of_ofOption
  have htext : ∀ s, momentText zone s = .ok w → ∃ t, w = moment t := by
    intro s h
    unfold momentText at h
    split at h
    · exact ⟨_, (Except.ok.inj h).symm⟩
    · exact hplaced _ h
    · exact nomatch h
  unfold timestamp at h
  split at h
  · exact hmillis _ h
  · split at h
    · exact hmillis _ h
    · exact nomatch h
  · exact ⟨_, (Except.ok.inj h).symm⟩
  · exact hplaced _ h
  · exact hplaced _ h
  · exact htext _ h
  · exact htext _ h
  · exact nomatch h

end Validate

/-! ### Mappings -/

section
variable {source done members : Assoc Json} {children : List (String × Field)}

/-- **One child** takes its value from the source, or its default, or leaves the members alone. -/
theorem validateChildren_cons_eq_ok {key : String} {child : Field} {rest : List (String × Field)}
    (h : validateChildren source ((key, child) :: rest) done = .ok members) :
    (∃ raw w, child.validate (.json raw) = .ok w ∧
        validateChildren source rest (Assoc.insert key w.toJson done) = .ok members) ∨
      (∃ d, child.default = some d ∧
        validateChildren source rest (Assoc.insert key d.toJson done) = .ok members) ∨
      validateChildren source rest done = .ok members := by
  rw [validateChildren.eq_def] at h
  dsimp only at h
  split at h
  · next raw _ =>
    obtain ⟨w, hw, h⟩ := Outcome.bind_eq_ok.mp h
    exact Or.inl ⟨raw, w, hw, h⟩
  · split at h
    · exact Or.inr (Or.inl ⟨_, rfl, h⟩)
    · exact Or.inr (Or.inr h)

/-- **Every member comes from a child**, if it did not stand there before: if the children give
values of their types and have defaults of them, every member is one of those. -/
theorem conformsUnder_of_validateChildren {all : List (String × Field)}
    (hvalid : ∀ c ∈ children, ∀ v w, c.2.validate v = .ok w → c.2.Conforms w)
    (hdefault : ∀ c ∈ children, ∀ d, c.2.default = some d → c.2.Conforms d)
    (hsub : children ⊆ all) (hs : done.Sorted) (hdone : ∀ e ∈ done, conformsUnder all e.1 e.2)
    (h : validateChildren source children done = .ok members) :
    members.Sorted ∧ ∀ e ∈ members, conformsUnder all e.1 e.2 := by
  induction children generalizing done with
  | nil =>
    rw [validateChildren] at h
    rw [← Except.ok.inj h]
    exact ⟨hs, hdone⟩
  | cons c rest ih =>
    obtain ⟨key, child⟩ := c
    have hrest : ∀ done' : Assoc Json, done'.Sorted → (∀ e ∈ done', conformsUnder all e.1 e.2) →
        validateChildren source rest done' = .ok members →
        members.Sorted ∧ ∀ e ∈ members, conformsUnder all e.1 e.2 := fun done' =>
      ih (fun c hc => hvalid c (List.mem_cons_of_mem _ hc))
        (fun c hc => hdefault c (List.mem_cons_of_mem _ hc)) (List.subset_of_cons_subset hsub)
    have hput : ∀ w, child.Conforms w →
        ∀ e ∈ Assoc.insert key w.toJson done, conformsUnder all e.1 e.2 := by
      intro w hw e he
      rcases Assoc.mem_of_mem_insert he with rfl | he
      · exact conformsUnder_iff.mpr ⟨child, hsub List.mem_cons_self, w, hw, rfl⟩
      · exact hdone e he
    rcases validateChildren_cons_eq_ok h with ⟨raw, w, hw, h⟩ | ⟨d, hd, h⟩ | h
    · have hchild : child.Conforms w := hvalid _ List.mem_cons_self _ _ hw
      exact hrest _ (hs.insert key _) (hput w hchild) h
    · have hchild : child.Conforms d := hdefault _ List.mem_cons_self _ hd
      exact hrest _ (hs.insert key _) (hput d hchild) h
    · exact hrest _ hs hdone h

/-- **A kind gives values of its type**, if the children do and have defaults of theirs. -/
theorem Kind.conforms_of_ok {kind : Kind Field} {label : String} {v w : Value}
    (hvalid : ∀ c ∈ (Field.ofKind kind).children, ∀ v w, c.2.validate v = .ok w → c.2.Conforms w)
    (hdefault : ∀ c ∈ (Field.ofKind kind).children, ∀ d, c.2.default = some d → c.2.Conforms d)
    (h : kind.validate label v = .ok w) : kind.Conforms w := by
  cases kind <;> rw [validate] at h <;> rw [Conforms]
  case integer => exact Validate.exists_int_of_integer (Validate.blame_eq_ok_iff.mp h)
  case float => exact Validate.exists_float_of_float (Validate.blame_eq_ok_iff.mp h)
  case boolean =>
    obtain ⟨b, rfl⟩ := Validate.exists_truthWord_of_boolean (Validate.blame_eq_ok_iff.mp h)
    exact Validate.truthWord_eq_or b
  case text => exact ⟨v.text, (Except.ok.inj h).symm⟩
  case timestamp zone =>
    exact Validate.exists_moment_of_timestamp (Validate.blame_eq_ok_iff.mp h)
  case object children =>
    obtain ⟨source, -, h⟩ := Outcome.bind_eq_ok.mp h
    obtain ⟨members, hmembers, h⟩ := Outcome.bind_eq_ok.mp h
    have hfrom := conformsUnder_of_validateChildren hvalid hdefault (List.Subset.refl _)
      List.Pairwise.nil (fun e he => nomatch he) hmembers
    exact ⟨members, (Except.ok.inj h).symm, hfrom⟩

end

/-! ### Normalized values -/

namespace Value

/-- **The normalized values**: integers, floats, texts and mappings. -/
def isNormal : Value → Bool
  | int _ | float _ | str _ | json (.obj _) => true
  | _ => false

theorem arr?_of_isNormal {x : Value} (h : x.isNormal = true) : x.toJson.arr? = none := by
  cases x with
  | json j => cases j <;> first | rfl | exact nomatch h
  | float y =>
    rw [toJson, Json.ofFloat]
    split <;> rfl
  | _ => first | rfl | exact nomatch h

end Value

/-- **A field normalizes what it accepts.** -/
theorem Field.isNormal_of_validate {f : Field} {v x : Value} (h : f.validate v = .ok x) :
    x.isNormal = true := by
  obtain ⟨name, kind, _, _, _⟩ := f
  rw [validate] at h
  cases kind <;> rw [Kind.validate] at h
  case integer =>
    obtain ⟨n, rfl⟩ := Validate.exists_int_of_integer (Validate.blame_eq_ok_iff.mp h)
    rfl
  case float =>
    obtain ⟨y, rfl⟩ := Validate.exists_float_of_float (Validate.blame_eq_ok_iff.mp h)
    rfl
  case boolean =>
    obtain ⟨b, rfl⟩ := Validate.exists_truthWord_of_boolean (Validate.blame_eq_ok_iff.mp h)
    rfl
  case text => exact Except.ok.inj h ▸ rfl
  case timestamp zone =>
    obtain ⟨t, rfl⟩ := Validate.exists_moment_of_timestamp (Validate.blame_eq_ok_iff.mp h)
    rfl
  case object children =>
    obtain ⟨source, -, h⟩ := Outcome.bind_eq_ok.mp h
    obtain ⟨fields, -, h⟩ := Outcome.bind_eq_ok.mp h
    exact Except.ok.inj h ▸ rfl

/-! ### Names -/

mutual

/-- **A name does not change what a field accepts**, nor what it makes of it. -/
theorem Field.ok_iff_of_rename (n : String) (v w : Value) :
    ∀ f : Field, (f.rename n).validate v = .ok w ↔ f.validate v = .ok w
  | ⟨name, kind, _, _, _⟩ => by
    rw [Field.rename, Field.validate, Field.validate]
    exact Kind.ok_iff_of_rename n _ _ v w kind

theorem Kind.ok_iff_of_rename (n l l' : String) (v w : Value) : ∀ kind : Kind Field,
    (Field.renameKind n kind).validate l v = .ok w ↔ kind.validate l' v = .ok w
  | .integer | .float | .boolean | .timestamp _ => by
    simp only [Field.renameKind, Kind.validate, Validate.blame_eq_ok_iff]
  | .text => by simp only [Field.renameKind, Kind.validate]
  | .object children => by
    simp only [Field.renameKind, Kind.validate, Outcome.bind_eq_ok, Validate.blame_eq_ok_iff,
      validateChildren_rename n]

theorem validateChildren_rename (n : String) (source done members : Assoc Json) :
    ∀ children : List (String × Field),
      validateChildren source (Field.renameChildren n children) done = .ok members ↔
        validateChildren source children done = .ok members
  | [] => by rw [Field.renameChildren]
  | (key, ⟨name, kind, multi, required, default⟩) :: rest => by
    have hchild := fun v w => Field.ok_iff_of_rename (n ++ "." ++ key) v w
      ⟨name, kind, multi, required, default⟩
    have hrest := fun done' => validateChildren_rename n source done' members rest
    rw [Field.renameChildren, validateChildren.eq_def, validateChildren.eq_def source (_ :: _)]
    dsimp only
    split
    · simp only [Outcome.bind_eq_ok, hchild, hrest]
    · rw [Field.rename]
      cases default with
      | none => exact hrest _
      | some d => exact hrest _

end

/-- The kind of a field decides what it accepts. -/
theorem Field.ok_iff_of_kind {f g : Field} (h : g.kind = f.kind) (v w : Value) :
    g.validate v = .ok w ↔ f.validate v = .ok w := by
  have hlabel : ∀ (kind : Kind Field) l l',
      kind.validate l v = .ok w ↔ kind.validate l' v = .ok w := fun kind l l' =>
    (Kind.ok_iff_of_rename "" l l v w kind).symm.trans (Kind.ok_iff_of_rename "" l l' v w kind)
  obtain ⟨_, kind, _, _, _⟩ := f
  obtain ⟨_, kind', _, _, _⟩ := g
  have hkind : kind' = kind := h
  rw [Field.validate, Field.validate, hkind]
  exact hlabel kind _ _

mutual

theorem Field.conforms_rename (n : String) (w : Value) :
    ∀ f : Field, (f.rename n).Conforms w ↔ f.Conforms w
  | ⟨_, kind, _, _, _⟩ => by
    rw [Field.rename, Field.Conforms, Field.Conforms]
    exact Kind.conforms_rename n w kind

theorem Kind.conforms_rename (n : String) (w : Value) :
    ∀ kind : Kind Field, (Field.renameKind n kind).Conforms w ↔ kind.Conforms w
  | .integer | .float | .boolean | .text | .timestamp _ => by
    simp only [Field.renameKind, Kind.Conforms]
  | .object children => by
    simp only [Field.renameKind, Kind.Conforms, conformsUnder_rename n]

theorem conformsUnder_rename (n key : String) (j : Json) : ∀ children : List (String × Field),
    conformsUnder (Field.renameChildren n children) key j ↔ conformsUnder children key j
  | [] => by rw [Field.renameChildren]
  | (k, child) :: rest => by
    rw [Field.renameChildren, conformsUnder, conformsUnder, conformsUnder_rename n key j rest]
    simp only [Field.conforms_rename _ _ child]

end

/-! ### Declared fields -/

namespace Field

theorem default_rename (n : String) (f : Field) : (f.rename n).default = f.default := by
  obtain ⟨_, _, _, _, _⟩ := f
  rw [rename]

theorem default_named (n : String) (f : Field) : (f.named n).default = f.default := by
  unfold named
  split
  · rfl
  · exact default_rename n f

theorem Built.isNormal_of_default {f : Field} {d : Value} (hf : f.Built) (h : f.default = some d) :
    d.isNormal = true := by
  induction hf generalizing d with
  | ofKind kind => exact nomatch h
  | named hf n ih => exact ih ((default_named n _).symm.trans h)
  | multi hf ih => exact ih h
  | required hf ih => exact ih h
  | withDefault hf hd ih =>
    obtain ⟨d', hd', hg⟩ := Outcome.bind_eq_ok.mp hd
    obtain rfl := Except.ok.inj hg
    obtain rfl := Option.some.inj h
    exact isNormal_of_validate hd'

/-- **The fields that can be declared**: fields of any kind, over children that can be declared,
with a name, marked, and with a default that they accept. -/
inductive Declared : Field → Prop
  | ofKind {kind : Kind Field} (h : ∀ c ∈ (Field.ofKind kind).children, Declared c.2) :
    Declared (.ofKind kind)
  | named {f : Field} (hf : Declared f) (n : String) : Declared (f.named n)
  | multi {f : Field} (hf : Declared f) : Declared f.asMulti
  | required {f : Field} (hf : Declared f) : Declared f.asRequired
  | withDefault {f g : Field} {v : Value} (hf : Declared f) (h : f.withDefault v = .ok g) :
    Declared g

/-- **A field is sound** if it gives values of its type and has a default of it. -/
structure IsSound (f : Field) : Prop where
  validate : ∀ v w, f.validate v = .ok w → f.Conforms w
  default : ∀ d, f.default = some d → f.Conforms d

theorem IsSound.congr {f g : Field} (hf : f.IsSound) (hkind : g.kind = f.kind)
    (hdefault : ∀ d, g.default = some d → f.Conforms d) : g.IsSound := by
  have hconforms : ∀ w, g.Conforms w ↔ f.Conforms w := by
    intro w
    rw [conforms_iff, conforms_iff, hkind]
  refine ⟨fun v w h => (hconforms w).mpr (hf.validate v w ?_), fun d hd => ?_⟩
  · exact (ok_iff_of_kind hkind v w).mp h
  · exact (hconforms d).mpr (hdefault d hd)

/-- **Declared fields are sound**, however they are made. -/
theorem Declared.isSound {f : Field} (hf : f.Declared) : f.IsSound := by
  induction hf with
  | @ofKind kind h ih =>
    refine ⟨fun v w hw => ?_, fun d hd => nomatch hd⟩
    rw [Field.ofKind, Field.validate] at hw
    rw [Field.ofKind, Field.Conforms]
    exact Kind.conforms_of_ok (fun c hc => (ih c hc).validate)
      (fun c hc => (ih c hc).default) hw
  | @named f hf n ih =>
    unfold Field.named
    split
    · exact ih
    · refine ⟨fun v w h => ?_, fun d hd => ?_⟩
      · have hvalid : f.validate v = .ok w := (ok_iff_of_rename n v w f).mp h
        exact (conforms_rename n w f).mpr (ih.validate v w hvalid)
      · have hdefault : f.default = some d := (default_rename n f).symm.trans hd
        exact (conforms_rename n d f).mpr (ih.default d hdefault)
  | multi hf ih => exact ih.congr rfl ih.default
  | required hf ih => exact ih.congr rfl ih.default
  | @withDefault f g v hf h ih =>
    obtain ⟨d, hd, h⟩ := Outcome.bind_eq_ok.mp h
    obtain rfl := Except.ok.inj h
    refine ih.congr rfl fun d' hd' => ?_
    obtain rfl := Option.some.inj hd'
    exact ih.validate v d hd

/-- **A normalized value has the type of its field.** -/
theorem Declared.conforms_of_validate {f : Field} {v w : Value} (hf : f.Declared)
    (h : f.validate v = .ok w) : f.Conforms w :=
  hf.isSound.validate v w h

/-- An integer field with a default. -/
def counter : Field := { ofKind .integer with default := some (.int 1) }

/-- A composite with a default in it and another composite, which was named before. -/
def sample : Field :=
  (ofKind (.object [("count", counter),
    ("inner", (ofKind (.object [("done", ofKind .boolean)])).rename "old")])).rename "sample"

/-- An attribute that no child has is dropped, and a default is put in. -/
theorem conforms_of_sample :
    sample.Declared ∧
      sample.validate (.json (.obj [("inner", .obj [("done", .bool true)]), ("x", .null)])) =
        .ok (.json (.obj [("count", .num (.int 1)), ("inner", .obj [("done", .str "true")])])) ∧
      sample.Conforms
        (.json (.obj [("count", .num (.int 1)), ("inner", .obj [("done", .str "true")])])) := by
  have hinteger : (ofKind .integer).Declared := .ofKind fun c hc => nomatch hc
  have hdefault : (ofKind .integer).withDefault (.bool true) = .ok counter := rfl
  have hcount : counter.Declared := hinteger.withDefault hdefault
  have hdone : (ofKind .boolean).Declared := .ofKind fun c hc => nomatch hc
  have hinner : ((ofKind (.object [("done", ofKind .boolean)])).named "old").Declared :=
    .named (.ofKind fun c hc => by rwa [List.mem_singleton.mp hc]) "old"
  have hsample : sample.Declared := by
    refine .named (.ofKind fun c hc => ?_) "sample"
    rcases List.mem_cons.mp hc with rfl | hc
    · exact hcount
    · rwa [List.mem_singleton.mp hc]
  have hvalid : sample.validate
        (.json (.obj [("inner", .obj [("done", .bool true)]), ("x", .null)])) =
      .ok (.json (.obj [("count", .num (.int 1)), ("inner", .obj [("done", .str "true")])])) := rfl
  exact ⟨hsample, hvalid, hsample.conforms_of_validate hvalid⟩

end Field

end SearchCompiler
