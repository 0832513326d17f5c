import SchemaDump.Proofs.Headings
import SchemaDump.Proofs.Modularity

/-! The statements from which objects come. Each object is made by one statement of its dump, and
receives its indexes from others. -/
namespace SchemaDump.Dump

open Text Attachment

variable {s st key : Text} {o u : Object} {c d : Classified} {ds : List Classified}

/-- The object that a statement makes. -/
def objectOf? (st : Text) : Option Object := (Part.ofStatement? st).bind Part.object?

/-- What a statement is recognised as, if it is an index of the owner `key`. -/
def indexOf? (key st : Text) : Option Classified :=
  (Classified.ofStatement? (trim st)).filter fun c => c.kind = .index && c.toAttachable.key = key

/-- Where an object of a dump comes from: its statement among the others, and what that was
recognised as. -/
structure Origin (s : Text) (o : Object) where
  before : List Text
  statement : Text
  after : List Text
  classified : Classified
  statements_eq : statements s = before ++ statement :: after
  recognised : Classified.ofStatement? (trim statement) = some classified
  isObject : classified.kind.isAttachable = false
  place : (parse s).objects[(before.filterMap objectOf?).length]? = some o

theorem unattached_eq (s : Text) : unattached s = (statements s).filterMap objectOf? :=
  List.filterMap_filterMap

/-- What is not recognised makes nothing. -/
theorem bind_ofStatement? {α : Type} (f : Part → Option α) (hf : ∀ s, f (.unrecognised s) = none)
    (st : Text) : (Part.ofStatement? st).bind f =
      (Classified.ofStatement? (trim st)).bind fun c => f (.recognised c) := by
  simp only [Part.ofStatement?]
  cases h : Classified.ofStatement? (trim st) with
  | none => split <;> simp [hf]
  | some c =>
    have hne : trim st ≠ [] := by
      rw [← Classified.residual_append_definition h]
      simp [(Classified.decides_of_ofStatement? h).definition_ne_nil]
    simp [hne]

theorem objectOf?_eq_some_iff : objectOf? st = some u ↔ ∃ c,
    Classified.ofStatement? (trim st) = some c ∧ c.kind.isAttachable = false ∧ c.toObject = u := by
  rw [objectOf?, bind_ofStatement? Part.object? fun _ => rfl, Option.bind_eq_some_iff]
  refine exists_congr fun c => and_congr_right fun _ => ?_
  cases hc : c.kind.isAttachable <;> simp [Part.object?, hc]

theorem exists_origin (ho : o ∈ (parse s).objects) : Nonempty (Origin s o) := by
  rw [objects_eq_map] at ho
  obtain ⟨u, hu, rfl⟩ := List.mem_map.mp ho
  obtain ⟨front, back, hcut⟩ := List.append_of_mem hu
  have hcut' := hcut
  rw [unattached_eq] at hcut'
  obtain ⟨sts₁, sts₂, hsts, h₁, h₂⟩ := List.filterMap_eq_append_iff.mp hcut'
  obtain ⟨skipped, st, after, rfl, hskipped, hst, -⟩ := List.filterMap_eq_cons_iff.mp h₂
  obtain ⟨c, hrecognised, hkind, rfl⟩ := objectOf?_eq_some_iff.mp hst
  refine ⟨⟨sts₁ ++ skipped, st, after, c, by simp [hsts], hrecognised, hkind, ?_⟩⟩
  rw [List.filterMap_append, List.filterMap_eq_nil_iff.mpr hskipped, List.append_nil, h₁,
    objects_eq_map, hcut]
  simp

theorem Origin.eq_attachOne (h : Origin s o) :
    o = (attachOne (Group.keyed (attachables s)) h.classified.toObject).1 := by
  have hobject : objectOf? h.statement = some h.classified.toObject :=
    objectOf?_eq_some_iff.mpr ⟨_, h.recognised, h.isObject, rfl⟩
  have hplace := h.place
  rw [objects_eq_map, unattached_eq, h.statements_eq, List.filterMap_append,
    List.filterMap_cons_some hobject] at hplace
  simpa [eq_comm] using hplace

/-- The indexes of an owner are those of its statements, in their order. -/
theorem named_index (key : Text) (sts : List Text) :
    named ((sts.filterMap Part.ofStatement?).filterMap Part.attachable?) key .index =
      (sts.filterMap (indexOf? key)).map Classified.toAttachable := by
  rw [named, List.filterMap_filterMap, List.filter_filterMap, List.map_filterMap]
  refine List.filterMap_congr fun st _ => ?_
  rw [bind_ofStatement? Part.attachable? fun _ => rfl, indexOf?]
  cases Classified.ofStatement? (trim st) with
  | none => rfl
  | some c =>
    cases hc : c.kind <;>
      simp [Part.attachable?, hc, Kind.isAttachable, Classified.toAttachable, Option.filter]

theorem indexOf?_eq_some_iff : indexOf? key st = some d ↔
    Classified.ofStatement? (trim st) = some d ∧ d.kind = .index ∧ d.toAttachable.key = key := by
  simp [indexOf?, Option.filter_eq_some_iff]

theorem recorded_eq_none_iff {own : List Attachable} : recorded none own = none ↔ own = [] := by
  cases own <;> simp [recorded]

theorem named_of_indexes (hindex : ∀ d ∈ ds, d.kind = .index ∧ d.toAttachable.key = key)
    (kind : Kind) : named (ds.map Classified.toAttachable) key kind =
      if kind = .index then ds.map Classified.toAttachable else [] := by
  have hkind : ∀ a ∈ ds.map Classified.toAttachable, a.kind = .index ∧ a.key = key := by
    intro a ha
    obtain ⟨d, hd, rfl⟩ := List.mem_map.mp ha
    exact hindex d hd
  split
  · next hk => exact List.filter_eq_self.mpr fun a ha => by simp [hkind a ha, hk]
  · next hk =>
    exact List.filter_eq_nil_iff.mpr fun a ha => by simp [hkind a ha, Ne.symm hk]

/-- Only index statements are needed for an object that has received no others. -/
theorem attachOne_of_indexes {as : List Attachable}
    (hsequences : (attachOne (Group.keyed as) c.toObject).1.sequences = none)
    (hconstraints : (attachOne (Group.keyed as) c.toObject).1.constraints = none)
    (hds : c.kind.isOwner = true →
      named as c.toObject.key .index = ds.map Classified.toAttachable)
    (hindex : ∀ d ∈ ds, d.kind = .index ∧ d.toAttachable.key = c.toObject.key) :
    attachOne (Group.keyed as) c.toObject =
      attachOne (Group.keyed (ds.map Classified.toAttachable)) c.toObject := by
  refine attachOne_congr fun howner kind hkind => ?_
  obtain ⟨hs, hc, -⟩ := (receives_attachOne as c.toObject).records (Kind.isOwner_iff.mp howner)
  have hs : named as c.toObject.key .sequence = [] :=
    recorded_eq_none_iff.mp (hs.symm.trans hsequences)
  have hc : named as c.toObject.key .constraint = [] :=
    recorded_eq_none_iff.mp (hc.symm.trans hconstraints)
  rw [named_of_indexes hindex]
  cases kind with
  | sequence => rw [hs]; rfl
  | constraint => rw [hc]; rfl
  | index => rw [hds howner]; rfl
  | _ => cases hkind

/-- Indexes come behind a definition and leave it as it is. -/
theorem definition_of_indexes (howner : ds ≠ [] → c.kind.isOwner = true)
    (hindex : ∀ d ∈ ds, d.kind = .index ∧ d.toAttachable.key = c.toObject.key) :
    (attachOne (Group.keyed (ds.map Classified.toAttachable)) c.toObject).1.definition =
      c.definition ++ indexLines (ds.map Classified.toAttachable) := by
  have hown (kind : Kind) : c.toObject.statements (ds.map Classified.toAttachable) kind =
      if kind = .index then ds.map Classified.toAttachable else [] := by
    by_cases hn : ds = []
    · simp [hn, Object.statements]
    · rw [← named_of_indexes hindex kind]
      have ho : c.toObject.kind.isOwner = true := howner hn
      simp [Object.statements, named, ho]
  rw [definition_attachOne, hown, hown, hown]
  simp [addSequences, addConstraints_nil, Classified.toObject]

/-- The definitions of an object's statements of one kind. -/
def recordOf (o : Object) : Kind → Option (List Text)
  | .sequence => o.sequences
  | .constraint => o.constraints
  | .index => o.indexes
  | _ => none

/-- The record of statements of an object, if it may have any. -/
theorem Origin.recordOf_eq (h : Origin s o) {kind : Kind} (hkind : kind.isAttachable = true) :
    recordOf o kind =
      if h.classified.kind.isOwner then
        recorded none (named (attachables s) h.classified.toObject.key kind)
      else none := by
  refine (congrArg (recordOf · kind) h.eq_attachOne).trans ?_
  split
  · next howner =>
    obtain ⟨hs, hc, hi⟩ :=
      (receives_attachOne (attachables s) h.classified.toObject).records
        (Kind.isOwner_iff.mp howner)
    cases kind with
    | sequence => exact hs
    | constraint => exact hc
    | index => exact hi
    | _ => cases hkind
  · next howner =>
    have hkind : ¬ h.classified.toObject.kind.isOwner = true := howner
    rw [attachOne, if_neg hkind]
    cases kind <;> rfl

theorem Origin.indexes_eq (h : Origin s o) : o.indexes =
    if h.classified.kind.isOwner then
      recorded none (named (attachables s) h.classified.toObject.key .index)
    else none := by
  have hkind : Kind.index.isAttachable = true := rfl
  exact h.recordOf_eq hkind

theorem Origin.named_index_eq_nil (h : Origin s o) (hindexes : o.indexes = none)
    (howner : h.classified.kind.isOwner = true) :
    named (attachables s) h.classified.toObject.key .index =
      ([] : List Classified).map Classified.toAttachable := by
  have hrecord := h.indexes_eq
  rw [hindexes, if_pos howner] at hrecord
  exact recorded_eq_none_iff.mp hrecord.symm

/-- What has received nothing is as its statement makes it. -/
theorem Origin.eq_toObject (h : Origin s o) (hsequences : o.sequences = none)
    (hconstraints : o.constraints = none) (hindexes : o.indexes = none) :
    o = h.classified.toObject := by
  have ho := h.eq_attachOne
  have hds := h.named_index_eq_nil hindexes
  have hsame := attachOne_of_indexes (ho ▸ hsequences) (ho ▸ hconstraints) hds (by simp)
  rw [hsame] at ho
  have hnone : ∀ kind, named [] h.classified.toObject.key kind = [] := fun _ => rfl
  exact ho.trans (attachOne_of_named_eq_nil hnone)

/-- If no index stands before the object's statement, its indexes are those behind it. -/
theorem Origin.named_eq (h : Origin s o) (hbefore : ∀ st ∈ h.before, indexOf? key st = none) :
    named (attachables s) key .index =
      (h.after.filterMap (indexOf? key)).map Classified.toAttachable := by
  have hst : indexOf? key h.statement = none := by
    cases hd : indexOf? key h.statement with
    | none => rfl
    | some d =>
      obtain ⟨hrecognised, hkind, -⟩ := indexOf?_eq_some_iff.mp hd
      obtain rfl := Option.some.inj (h.recognised.symm.trans hrecognised)
      have hobject := h.isObject
      rw [hkind] at hobject
      cases hobject
  have hlater : (statements s).filterMap (indexOf? key) = h.after.filterMap (indexOf? key) := by
    rw [h.statements_eq, List.filterMap_append, List.filterMap_eq_nil_iff.mpr hbefore,
      List.filterMap_cons_none hst, List.nil_append]
  rw [← hlater]
  exact named_index key (statements s)

end SchemaDump.Dump
