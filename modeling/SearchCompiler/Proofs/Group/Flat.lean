import Mathlib.Data.List.Perm.Basic
import SearchCompiler.Proofs.Group.Walk

/-! # Flattened predicates

A chain of one connective is flat: its parts, taken together from left to right, go side by side
into one group, whichever way the chain is bracketed. `Expr.flat` gives the parts, `Expr.flatItems` puts
the items of the parts into a group, recursively. The walk gives the same group.

* `compileWhere_flat`: the group of a predicate is the flattened one, it holds every leaf once and
  in order, no group in it stands in one of the same connective, and brackets do not matter. -/

namespace SearchCompiler

mutual

/-- **The parts of a chain** of one connective, from left to right. -/
def Expr.flat (o : Op) : Expr → List Expr
  | .node o' l r => if o'.isLogical ∧ o' = o then l.flat o ++ r.flat o else [.node o' l r]

/-- The parts on one side. -/
def Operand.flat (o : Op) : Operand → List Expr
  | .expr e => e.flat o
  | _ => []

end

namespace Expr

theorem flat_of_ne {o : Op} {e : Expr} (h : ¬ (e.op.isLogical = true ∧ e.op = o)) :
    e.flat o = [e] := by
  obtain ⟨o', l, r⟩ := e
  rw [flat]
  exact if_neg h

theorem flat_chain {o : Op} {l r : Expr} (h : o.isLogical = true) :
    flat o (.node o (.expr l) (.expr r)) = l.flat o ++ r.flat o := by
  rw [flat, if_pos ⟨h, rfl⟩]; rfl

theorem sizeOf_le_of_mem_flat {o : Op} (e : Expr) : ∀ {x : Expr}, x ∈ e.flat o →
    sizeOf x ≤ sizeOf e ∧ (e.op.isLogical = true → e.op = o → sizeOf x < sizeOf e) := by
  induction e using connectiveInduction with
  | leaf o' l r ho' =>
    intro x hx
    rw [flat_of_ne (by simp [op, ho'])] at hx
    obtain rfl := List.mem_singleton.mp hx
    exact ⟨Nat.le_refl _, fun h => by simp [op, ho'] at h⟩
  | connective o' l r ho' ihl ihr =>
    intro x hx
    by_cases ho : o' = o
    · subst ho
      rw [flat, if_pos ⟨ho', rfl⟩] at hx
      have hlt : sizeOf x < sizeOf (Expr.node o' l r) := by
        rcases List.mem_append.mp hx with hx | hx
        · cases l with
          | expr l => have := (ihl l rfl hx).1; simp; omega
          | _ => simp [Operand.flat] at hx
        · cases r with
          | expr r => have := (ihr r rfl hx).1; simp; omega
          | _ => simp [Operand.flat] at hx
      exact ⟨Nat.le_of_lt hlt, fun _ _ => hlt⟩
    · rw [flat_of_ne (by simp [op, ho])] at hx
      obtain rfl := List.mem_singleton.mp hx
      exact ⟨Nat.le_refl _, fun _ h => absurd h ho⟩

theorem measure_lt_of_mem_flat {o : Op} {e x : Expr} (hx : x ∈ e.flat o) :
    2 * sizeOf x < 2 * sizeOf e + if e.op.isLogical = true ∧ e.op = o then 0 else 1 := by
  obtain ⟨hle, hlt⟩ := sizeOf_le_of_mem_flat e hx
  by_cases h : e.op.isLogical = true ∧ e.op = o
  · have := hlt h.1 h.2
    rw [if_pos h]; omega
  · rw [if_neg h]; omega

/-- **The items of a group of some connective**, filled in order from the parts of an expression: a
leaf by its own item, a connective by the group that is filled from its parts in turn. -/
def flatItems (v : Version) (o : Op) (e : Expr) : Compile (List Item) :=
  (e.flat o).attach.mapM fun x =>
    if x.1.op.isLogical then do return .ofGroup v o (← flatItems v x.1.op x.1)
    else x.1.leafItem v o
termination_by 2 * sizeOf e + if e.op.isLogical ∧ e.op = o then 0 else 1
decreasing_by
  next h => simpa [h] using measure_lt_of_mem_flat x.2

/-- The item of one part. -/
def flatItem (v : Version) (o : Op) (x : Expr) : Compile Item :=
  if x.op.isLogical then do return .ofGroup v o (← flatItems v x.op x) else x.leafItem v o

variable {v : Version}

theorem flatItems_eq_mapM (o : Op) (e : Expr) :
    e.flatItems v o = (e.flat o).mapM (flatItem v o) := by
  rw [flatItems]
  exact (List.mapM_subtype fun _ _ => rfl).trans (by rw [List.unattach_attach])

theorem flatItems_of_leaf {o o' : Op} {l r : Operand} {c : Clause} {inverted : Bool}
    (ho : o'.isLogical = false)
    (hc : Leaf.compile v (.node o' l r) = .ok (.clause c inverted)) :
    (Expr.node o' l r).flatItems v o = .ok [.ofLeaf v o c inverted] := by
  rw [flatItems_eq_mapM, flat_of_ne (by simp [op, ho])]
  have hi : flatItem v o (.node o' l r) = .ok (.ofLeaf v o c inverted) := by
    rw [flatItem, if_neg (by simp [op, ho])]
    exact leafItem_eq_ok_iff.mpr ⟨c, inverted, hc, rfl⟩
  simp [hi]

theorem flatItems_of_chain {o : Op} {l r : Expr} {is js : List Item} (ho : o.isLogical = true)
    (hl : l.flatItems v o = .ok is) (hr : r.flatItems v o = .ok js) :
    (Expr.node o (.expr l) (.expr r)).flatItems v o = .ok (is ++ js) := by
  rw [flatItems_eq_mapM] at hl hr
  rw [flatItems_eq_mapM, flat_chain ho, List.mapM_append, hl, hr]
  rfl

theorem flatItems_of_group {o o' : Op} {l r : Expr} {is : List Item} (ho : o'.isLogical = true)
    (hne : o' ≠ o) (h : (Expr.node o' (.expr l) (.expr r)).flatItems v o' = .ok is) :
    (Expr.node o' (.expr l) (.expr r)).flatItems v o = .ok [.ofGroup v o is] := by
  rw [flatItems_eq_mapM, flat_of_ne (by simp [op, hne])]
  have hi : flatItem v o (.node o' (.expr l) (.expr r)) = .ok (.ofGroup v o is) := by
    rw [flatItem, if_pos (by simpa [op] using ho)]
    simp only [op, h]
    rfl
  simp [hi]

/-- **The recursion over parts gives the same items** as the one over both sides. -/
theorem flatItems_of_fills {d : Nat} {o : Op} {e : Expr} {is : List Item}
    (h : e.Fills v d o is) : e.flatItems v o = .ok is := by
  induction h with
  | leaf ho hc => exact flatItems_of_leaf ho hc
  | chain ho _ _ ihl ihr => exact flatItems_of_chain ho ihl ihr
  | group ho hne _ _ _ ihl ihr => exact flatItems_of_group ho hne (flatItems_of_chain ho ihl ihr)

end Expr

/-- **The flattened group of a predicate.** -/
def flatWhere (c : Config) (e : Expr) : Compile BoolGroup := do
  return (topGroup c).pushAll (← e.flatItems c.version e.connective)

/-! ### Every leaf once, in order -/

namespace Json

/-- **The document holds these leaves**, each of them once: a clause holds its own leaf, and the
items of a group hold consecutive stretches of the leaves, every list in the order of the source. -/
inductive Arranges (v : Version) : List Expr → Json → Prop
  | leaf {e : Expr} {c : Clause} {inverted : Bool}
    (h : Leaf.compile v e = .ok (.clause c inverted)) : Arranges v [e] c.document
  | group {doc : Json} {ps : Assoc Json} (parts : List (List Expr × Item))
    (h : doc.group? = some ps)
    (hlist : ∀ o, itemsUnder ps o = (parts.filter (·.2.occur = o)).map (·.2.document))
    (hparts : ∀ p ∈ parts, Arranges v p.1 p.2.document) :
    Arranges v (parts.flatMap (·.1)) doc

theorem Arranges.ofItems {v : Version} (parts : List (List Expr × Item))
    (h : ∀ p ∈ parts, Arranges v p.1 p.2.document) :
    Arranges v (parts.flatMap (·.1)) (BoolGroup.ofItems v (parts.map (·.2))).document := by
  rw [BoolGroup.document_ofItems]
  refine .group parts (BoolGroup.group?_core _) (fun o => ?_) h
  rw [BoolGroup.itemsUnder_ofItems, List.filter_map, List.map_map]
  rfl

theorem arranges_ofLeaf {v : Version} {o : Op} {e : Expr} {c : Clause} {inverted : Bool}
    (h : Leaf.compile v e = .ok (.clause c inverted)) :
    Arranges v [e] (Item.ofLeaf v o c inverted).document := by
  have hn : Arranges v [e] (OpenGroup.negation v c) :=
    Arranges.ofItems [([e], ⟨.mustNot, c.document⟩)] fun p hp => by
      obtain rfl := List.mem_singleton.mp hp
      exact .leaf h
  cases o <;> cases inverted <;> first | exact .leaf h | exact hn

/-- The leaf documents in a document, list by list. -/
def leafDocuments (doc : Json) : List Json :=
  doc.foldQuery (fun d => [d]) fun lists => Occur.all.flatMap fun o => (lists o).flatten

/-- Dealing a sequence out to the lists of a group moves its parts only. -/
theorem flatMap_filter_perm {α β : Type} (occ : α → Occur) (f : α → List β) (xs : List α) :
    (Occur.all.flatMap fun o => (xs.filter (occ · = o)).flatMap f).Perm (xs.flatMap f) := by
  induction xs with
  | nil => simp [Occur.all]
  | cons x xs ih =>
    refine .trans ?_ (ih.append_left (f x))
    simp only [Occur.all, List.flatMap_cons, List.flatMap_nil, List.append_nil]
    cases h : occ x <;> simp [h]
    · exact List.perm_append_comm_assoc ..
    · exact ((List.perm_append_comm_assoc ..).append_left _).trans (List.perm_append_comm_assoc ..)
    · refine (((List.perm_append_comm_assoc ..).append_left _).append_left _).trans ?_
      exact ((List.perm_append_comm_assoc ..).append_left _).trans (List.perm_append_comm_assoc ..)

end Json

/-- The document of a leaf. -/
def Expr.leafDocument? (v : Version) (e : Expr) : Option Json :=
  match Leaf.compile v e with
  | .ok (.clause c _) => some c.document
  | _ => none

theorem Json.Arranges.perm {v : Version} {es : List Expr} {doc : Json} (h : Arranges v es doc) :
    (doc.leafDocuments.map some).Perm (es.map (Expr.leafDocument? v)) := by
  induction h with
  | leaf h =>
    rw [leafDocuments, foldQuery_of_leaf (group?_of_compile h)]
    simp [Expr.leafDocument?, h]
  | @group doc ps parts h hlist hparts ih =>
    have hd : doc.leafDocuments = Occur.all.flatMap fun o =>
        (parts.filter (·.2.occur = o)).flatMap fun p => p.2.document.leafDocuments := by
      rw [leafDocuments, foldQuery_of_group h]
      simp only [hlist, List.map_map, List.flatMap_def]
      rfl
    rw [hd]
    simp only [List.map_flatMap]
    refine (flatMap_filter_perm (·.2.occur) _ parts).trans ?_
    exact List.Perm.flatMap_left parts ih

/-- An expression fills a group with items that hold its leaves. -/
theorem Expr.Fills.arranges {v : Version} {d : Nat} {o : Op} {e : Expr} {is : List Item}
    (h : e.Fills v d o is) : ∃ parts : List (List Expr × Item), parts.map (·.2) = is ∧
      parts.flatMap (·.1) = e.leaves ∧ ∀ p ∈ parts, Json.Arranges v p.1 p.2.document := by
  induction h with
  | @leaf d o o' l r c inverted ho hc =>
    refine ⟨[([.node o' l r], _)], rfl, by simp [leaves, ho], fun p hp => ?_⟩
    obtain rfl := List.mem_singleton.mp hp
    exact Json.arranges_ofLeaf hc
  | chain ho hl hr ihl ihr =>
    obtain ⟨ps, hps, hpl, hpa⟩ := ihl
    obtain ⟨qs, hqs, hql, hqa⟩ := ihr
    refine ⟨ps ++ qs, by simp [hps, hqs], by simp [leaves, Operand.leaves, ho, hpl, hql],
      fun p hp => ?_⟩
    exact (List.mem_append.mp hp).elim (hpa p) (hqa p)
  | group ho hne hd hl hr ihl ihr =>
    obtain ⟨ps, hps, hpl, hpa⟩ := ihl
    obtain ⟨qs, hqs, hql, hqa⟩ := ihr
    refine ⟨[((ps ++ qs).flatMap (·.1), _)], rfl,
      by simp [leaves, Operand.leaves, ho, hpl, hql], fun p hp => ?_⟩
    obtain rfl := List.mem_singleton.mp hp
    have ha : ∀ p ∈ ps ++ qs, Json.Arranges v p.1 p.2.document := fun p hp =>
      (List.mem_append.mp hp).elim (hpa p) (hqa p)
    have := Json.Arranges.ofItems _ ha
    rwa [List.map_append, hps, hqs] at this

/-! ### Connectives take turns -/

namespace Json

/-- Is a group one of alternatives? -/
def isDisjunction (ps : Assoc Json) : Bool := !(itemsUnder ps .should).isEmpty

/-- **No group stands directly in one of the same connective.** -/
inductive Alternates : Json → Prop
  | leaf {doc : Json} (h : doc.group? = none) : Alternates doc
  | group {doc : Json} {ps : Assoc Json} (h : doc.group? = some ps)
    (hne : ∀ o, ∀ j ∈ itemsUnder ps o, ∀ qs, j.group? = some qs →
      isDisjunction qs ≠ isDisjunction ps)
    (hitems : ∀ o, ∀ j ∈ itemsUnder ps o, Alternates j) : Alternates doc

end Json

/-- An item for a group of some connective: a leaf, or a group of the other connective. -/
structure Item.Alternates (o : Op) (i : Item) : Prop where
  occur : o.admits i.occur = true
  isDisjunction : ∀ qs, i.document.group? = some qs → Json.isDisjunction qs = !(o == .or)
  document : i.document.Alternates

theorem isDisjunction_ofItems {v : Version} {o : Op} {is : List Item} (ho : o.isLogical = true)
    (hne : is ≠ []) (h : ∀ i ∈ is, o.admits i.occur = true) :
    Json.isDisjunction (BoolGroup.ofItems v is).params.entries = (o == .or) := by
  rw [Json.isDisjunction, BoolGroup.itemsUnder_ofItems]
  rcases Op.isLogical_iff.mp ho with rfl | rfl
  · rw [filter_eq_nil_of_admits .should h rfl]
    rfl
  · obtain ⟨i, is, rfl⟩ := List.exists_cons_of_ne_nil hne
    have hi := Op.eq_should_of_admits (h i List.mem_cons_self)
    simp [hi]

theorem alternates_ofItems {v : Version} {o : Op} {is : List Item} (ho : o.isLogical = true)
    (hne : is ≠ []) (h : ∀ i ∈ is, i.Alternates o) :
    (BoolGroup.ofItems v is).document.Alternates := by
  rw [BoolGroup.document_ofItems]
  refine .group (BoolGroup.group?_core _) (fun occ j hj qs hqs => ?_) fun occ j hj => ?_
  · obtain ⟨i, hi, -, rfl⟩ := BoolGroup.mem_itemsUnder_ofItems.mp hj
    rw [(h i hi).isDisjunction qs hqs, isDisjunction_ofItems ho hne fun i hi => (h i hi).occur]
    simp
  · obtain ⟨i, hi, -, rfl⟩ := BoolGroup.mem_itemsUnder_ofItems.mp hj
    exact (h i hi).document

theorem alternates_ofLeaf {v : Version} {o : Op} {e : Expr} {c : Clause} {inverted : Bool}
    (ho : o.isLogical = true) (h : Leaf.compile v e = .ok (.clause c inverted)) :
    (Item.ofLeaf v o c inverted).Alternates o := by
  have hc : c.document.group? = none := group?_of_compile h
  have hleaf : ∀ {o occ}, o.admits occ = true → Item.Alternates o ⟨occ, c.document⟩ :=
    fun hocc => ⟨hocc, fun qs hqs => by simp [hc] at hqs, .leaf hc⟩
  rcases Op.isLogical_iff.mp ho with rfl | rfl <;> cases inverted
  · exact hleaf rfl
  · exact hleaf rfl
  · exact hleaf rfl
  · -- the group around a negated alternative is one of conditions
    have hi : ∀ i ∈ [(⟨.mustNot, c.document⟩ : Item)], i.Alternates .and := fun i hi => by
      obtain rfl := List.mem_singleton.mp hi
      exact hleaf rfl
    refine ⟨rfl, fun qs hqs => ?_, alternates_ofItems rfl (List.cons_ne_nil _ _) hi⟩
    rw [Item.ofLeaf, OpenGroup.negation_eq, BoolGroup.document_ofItems,
      BoolGroup.group?_core] at hqs
    rw [← Option.some.inj hqs,
      isDisjunction_ofItems rfl (List.cons_ne_nil _ _) fun i h => (hi i h).occur]
    rfl

theorem Expr.Fills.alternates {v : Version} {d : Nat} {o : Op} {e : Expr} {is : List Item}
    (h : e.Fills v d o is) (ho : o.isLogical = true) : ∀ i ∈ is, i.Alternates o := by
  induction h with
  | leaf ho' hc =>
    intro i hi
    obtain rfl := List.mem_singleton.mp hi
    exact alternates_ofLeaf ho hc
  | chain ho' hl hr ihl ihr =>
    intro i hi
    exact (List.mem_append.mp hi).elim (ihl ho i) (ihr ho i)
  | @group d o o' l r is js ho' hne hd hl hr ihl ihr =>
    intro i hi
    obtain rfl := List.mem_singleton.mp hi
    have ha : ∀ i ∈ is ++ js, i.Alternates o' := fun i hi =>
      (List.mem_append.mp hi).elim (ihl ho' i) (ihr ho' i)
    have hn : is ++ js ≠ [] := by simp [hl.ne_nil]
    refine ⟨by rcases Op.isLogical_iff.mp ho with rfl | rfl <;> rfl, fun qs hqs => ?_,
      alternates_ofItems ho' hn ha⟩
    rw [Item.ofGroup, BoolGroup.document_ofItems, BoolGroup.group?_core] at hqs
    rw [← Option.some.inj hqs, isDisjunction_ofItems ho' hn fun i hi => (ha i hi).occur]
    rcases Op.isLogical_iff.mp ho with rfl | rfl <;> rcases Op.isLogical_iff.mp ho' with rfl | rfl
    · exact absurd rfl hne
    · rfl
    · rfl
    · exact absurd rfl hne

/-! ### Brackets -/

/-- **Predicates that differ in the brackets of chains only.** -/
inductive Expr.Reassociated : Expr → Expr → Prop
  | assoc {o : Op} (ho : o.isLogical = true) (a b c : Expr) :
    Reassociated (.node o (.expr (.node o (.expr a) (.expr b))) (.expr c))
      (.node o (.expr a) (.expr (.node o (.expr b) (.expr c))))
  | congr {o : Op} {l l' r r' : Expr} (ho : o.isLogical = true) (hl : Reassociated l l')
    (hr : Reassociated r r') :
    Reassociated (.node o (.expr l) (.expr r)) (.node o (.expr l') (.expr r'))
  | refl (e : Expr) : Reassociated e e
  | symm {e e' : Expr} (h : Reassociated e e') : Reassociated e' e
  | trans {e e' e'' : Expr} (h : Reassociated e e') (h' : Reassociated e' e'') :
    Reassociated e e''

namespace Expr

variable {v : Version} {d : Nat} {o : Op} {is : List Item}

/-- Two connectives fill every group alike if they fill one of their own connective alike. -/
theorem fills_congr {l r l' r' : Expr} (ho : o.isLogical = true)
    (h : ∀ d is, (Expr.node o (.expr l) (.expr r)).Fills v d o is ↔
      (Expr.node o (.expr l') (.expr r')).Fills v d o is) (d : Nat) (o' : Op) (is : List Item) :
    (Expr.node o (.expr l) (.expr r)).Fills v d o' is ↔
      (Expr.node o (.expr l') (.expr r')).Fills v d o' is := by
  by_cases hne : o = o'
  · subst hne; exact h d is
  · simp only [fills_group_iff ho hne, h]

/-- **Brackets do not matter**: predicates that differ in them fill every group alike. -/
theorem Reassociated.fills_iff {e e' : Expr} (h : e.Reassociated e') :
    ∀ d o is, e.Fills v d o is ↔ e'.Fills v d o is := by
  induction h with
  | assoc ho a b c =>
    refine fills_congr ho fun d is => ?_
    simp only [fills_chain_iff ho]
    constructor
    · rintro ⟨_, ks, ⟨js, is, ha, hb, rfl⟩, hc, rfl⟩
      exact ⟨js, is ++ ks, ha, ⟨is, ks, hb, hc, rfl⟩, by rw [List.append_assoc]⟩
    · rintro ⟨js, _, ha, ⟨is, ks, hb, hc, rfl⟩, rfl⟩
      exact ⟨js ++ is, ks, ⟨js, is, ha, hb, rfl⟩, hc, by rw [List.append_assoc]⟩
  | congr ho hl hr ihl ihr =>
    refine fills_congr ho fun d is => ?_
    simp only [fills_chain_iff ho, ihl, ihr]
  | refl e => exact fun _ _ _ => Iff.rfl
  | symm h ih => exact fun d o is => (ih d o is).symm
  | trans h h' ih ih' => exact fun d o is => (ih d o is).trans (ih' d o is)

theorem Reassociated.connective {e e' : Expr} (h : e.Reassociated e') :
    e.connective = e'.connective := by
  induction h with
  | assoc | congr | refl => rfl
  | symm h ih => exact ih.symm
  | trans h h' ih ih' => exact ih.trans ih'

end Expr

/-! ### The group of a predicate -/

theorem compileWhere_of_reassociated {c : Config} {e e' : Expr} {g : BoolGroup}
    (h : compileWhere c (some e) = .ok g) (he : e.Reassociated e') :
    compileWhere c (some e') = .ok g := by
  obtain ⟨hv, is, his, rfl⟩ := compileWhere_eq_ok_iff.mp h
  refine compileWhere_eq_ok_iff.mpr ⟨hv, is, ?_, rfl⟩
  rw [Expr.items_eq_ok_iff] at his ⊢
  rw [← he.connective]
  exact (he.fills_iff _ _ _).mp his

theorem Json.Arranges.of_core {v : Version} {es : List Expr} {g : BoolGroup}
    (h : Arranges v es g.core) : Arranges v es g.document := by
  cases hf : g.filtered with
  | false => rwa [BoolGroup.document_of_not_filtered hf]
  | true =>
    have hl : ∀ o, itemsUnder [(Occur.filter.key, g.core)] o =
        ([(es, (⟨.filter, g.core⟩ : Item))].filter (·.2.occur = o)).map (·.2.document) := by
      intro o
      cases o <;> rfl
    have := Arranges.group _ (BoolGroup.group?_of_filtered hf) hl fun p hp => by
      obtain rfl := List.mem_singleton.mp hp; exact h
    simpa using this

/-- **The group of a predicate is the flattened one.** It holds every leaf once, each list in the
order of the source; no group in it stands directly in one of the same connective; and predicates
that differ in brackets only have the same group. -/
theorem compileWhere_flat {c : Config} {e : Expr} {g : BoolGroup}
    (h : compileWhere c (some e) = .ok g) :
    flatWhere c e = .ok g ∧ Json.Arranges c.version e.leaves g.document ∧
      (g.document.leafDocuments.map some).Perm (e.leaves.map (Expr.leafDocument? c.version)) ∧
      g.core.Alternates ∧ ∀ e', e.Reassociated e' → compileWhere c (some e') = .ok g := by
  have hr : ∀ e', e.Reassociated e' → compileWhere c (some e') = .ok g := fun e' he =>
    compileWhere_of_reassociated h he
  obtain ⟨is, hf, rfl⟩ := exists_fills_of_compileWhere h
  have ho := e.isLogical_connective
  have hflat : flatWhere c e = .ok ((topGroup c).pushAll is) := by
    rw [flatWhere, Expr.flatItems_of_fills hf]; rfl
  have ha : Json.Arranges c.version e.leaves ((topGroup c).pushAll is).document := by
    obtain ⟨parts, rfl, hl, hp⟩ := hf.arranges
    refine Json.Arranges.of_core ?_
    rw [core_pushAll_topGroup, ← hl]
    exact .ofItems _ hp
  refine ⟨hflat, ha, ha.perm, ?_, hr⟩
  rw [core_pushAll_topGroup]
  exact alternates_ofItems ho hf.ne_nil (hf.alternates ho)

/-- The same conditions with other brackets. -/
theorem compileWhere_flat_mixed : ∃ g, compileWhere {} (some .mixed) = .ok g ∧
    flatWhere {} .mixed = .ok g ∧ g.core.Alternates ∧
    compileWhere {} (some (.node .and (.expr (.compare "a" .eq (.int 1)))
      (.expr (.node .and (.expr (.node .or (.expr (.compare "b" .ne (.int 2)))
        (.expr (.compare "c" .lt (.int 3))))) (.expr (.compare "d" .gte (.int 4))))))) = .ok g := by
  obtain ⟨g, h⟩ := exists_compileWhere_mixed
  obtain ⟨hflat, -, -, ha, hr⟩ := compileWhere_flat h
  exact ⟨g, h, hflat, ha, hr _ (.assoc rfl _ _ _)⟩

end SearchCompiler
