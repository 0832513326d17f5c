import SchemaDump.Proofs.Definitions
import SchemaDump.Proofs.Names
import SchemaDump.Proofs.Origins
import Mathlib.Algebra.BigOperators.Group.List.Basic

/-! What holds of the objects of every dump: their kinds and names, the statements that they record,
and how many there are of each kind. -/
namespace SchemaDump

open Attachment Identifier

namespace Object

variable {o : Object}

/-- A record of statements of one kind. Only tables and views have any, and each of these is
recognised as a statement of that kind that belongs to the object. -/
structure Records (o : Object) (kind : Kind) (record : Option (List Text)) : Prop where
  ne_nil : record ≠ some []
  owner : record ≠ none → o.kind = .table ∨ o.kind = .view
  recognised : ∀ ds ∈ record, ∀ d ∈ ds, ∃ c, Classified.ofStatement? d = some c ∧ c.kind = kind ∧
    c.residual = [] ∧ c.heading.schema = o.schema ∧ c.heading.table = some o.name

/-- What a dump makes sure of. -/
structure Sound (o : Object) : Prop where
  kind : o.kind ∈ [.schema, .extension, .type, .domain, .function, .procedure, .table, .view]
  schema : WellFormed o.schema
  name : WellFormed o.name
  ofSchema : o.kind = .schema → o.name = o.schema
  qualifiedName : o.qualifiedName =
    if o.kind = .schema then none else some (o.schema ++ '.' :: o.name)
  sequences : o.Records .sequence o.sequences
  constraints : o.Records .constraint o.constraints
  indexes : o.Records .index o.indexes

theorem sum_countP_kind (os : List Object) :
    (Kind.all.map fun k => os.countP fun o => o.kind = k).sum = os.length := by
  induction os with
  | nil => simp
  | cons o os ih =>
    have hone : (Kind.all.map fun k => if o.kind = k then 1 else 0).sum = 1 := by
      cases o.kind <;> decide
    simp only [List.countP_cons, decide_eq_true_eq, List.sum_map_add, ih, hone, List.length_cons]

theorem sum_filter_ne_zero (l : List (Kind × Nat)) :
    ((l.filter fun p => p.2 ≠ 0).map Prod.snd).sum = (l.map Prod.snd).sum := by
  induction l with
  | nil => rfl
  | cons p l ih => by_cases hp : p.2 = 0 <;> simp_all

/-- Every object is counted, and counted once. -/
theorem sum_counts (os : List Object) : ((counts os).map Prod.snd).sum = os.length := by
  rw [counts, sum_filter_ne_zero, List.map_map]
  exact sum_countP_kind os

theorem pairwise_counts (os : List Object) :
    (counts os).Pairwise fun p q => p.1.name < q.1.name := by
  have hall : Kind.all.Pairwise fun k l => k.name < l.name := by decide
  rw [counts]
  refine List.Pairwise.filter _ (List.pairwise_map.mpr ?_)
  exact hall

theorem pos_of_mem_counts {os : List Object} {p : Kind × Nat} (h : p ∈ counts os) : 0 < p.2 := by
  have hne := (List.mem_filter.mp h).2
  exact Nat.pos_of_ne_zero (by simpa using hne)

end Object

namespace Dump

variable {s : Text} {o : Object} {a : Attachable}

theorem exists_of_mem_attachables (ha : a ∈ attachables s) : ∃ st ∈ statements s, ∃ c,
    Classified.ofStatement? (Text.trim st) = some c ∧ c.kind.isAttachable = true ∧
      c.toAttachable = a := by
  rw [attachables, parts, List.filterMap_filterMap] at ha
  obtain ⟨st, hst, ha⟩ := List.mem_filterMap.mp ha
  rw [bind_ofStatement? Part.attachable? fun _ => rfl] at ha
  obtain ⟨c, hc, ha⟩ := Option.bind_eq_some_iff.mp ha
  cases hk : c.kind.isAttachable with
  | false => simp [Part.attachable?, hk] at ha
  | true => exact ⟨st, hst, c, hc, hk, by simpa [Part.attachable?, hk] using ha⟩

/-- The names of an object are those in the heading of its statement. -/
theorem Origin.heading_eq (h : Origin s o) : o.kind = h.classified.kind ∧
    o.schema = h.classified.heading.schema ∧ h.classified.heading.name = some o.name := by
  have hr := receives_attachOne (attachables s) h.classified.toObject
  rw [← h.eq_attachOne] at hr
  obtain ⟨n, hn, -⟩ := (Classified.isNamed h.recognised).name h.isObject
  refine ⟨hr.kind, hr.schema, ?_⟩
  rw [hr.name, Classified.toObject, Classified.name, hn, Option.getD_some]

/-- Statements go by the text of their owner's name. It leaves no doubt about the owner. -/
theorem Origin.recognised_of_mem (h : Origin s o) {kind : Kind}
    (ha : a ∈ named (attachables s) h.classified.toObject.key kind) :
    ∃ c, Classified.ofStatement? a.definition = some c ∧ c.kind = kind ∧ c.residual = [] ∧
      c.heading.schema = o.schema ∧ c.heading.table = some o.name := by
  obtain ⟨hmem, hown⟩ := List.mem_filter.mp ha
  obtain ⟨hkey, rfl⟩ : a.key = h.classified.toObject.key ∧ a.kind = kind := by simpa using hown
  obtain ⟨st, -, c, hc, hkind, rfl⟩ := exists_of_mem_attachables hmem
  obtain ⟨t, ht, htable⟩ := (Classified.isNamed hc).table hkind
  obtain ⟨-, hschema, hname⟩ := h.heading_eq
  have howner := (Classified.isNamed h.recognised).schema
  have hqualify : qualify c.heading.schema t = qualify o.schema o.name := by
    simpa [Attachable.key, Object.key, Classified.toAttachable, Classified.toObject,
      Classified.name, ht, hname, hschema] using hkey
  obtain ⟨hs, rfl⟩ := (qualify_inj (Classified.isNamed hc).schema (hschema ▸ howner)).mp hqualify
  exact ⟨_, Classified.ofStatement?_definition hc, rfl, rfl, hs, ht⟩

theorem Origin.records (h : Origin s o) {kind : Kind} (hkind : kind.isAttachable = true) :
    o.Records kind (recordOf o kind) := by
  have hrecord := h.recordOf_eq hkind
  obtain ⟨hk, -⟩ := h.heading_eq
  by_cases howner : h.classified.kind.isOwner = true
  · rw [if_pos howner] at hrecord
    refine ⟨?_, fun _ => hk ▸ Kind.isOwner_iff.mp howner, ?_⟩
    · rw [hrecord, recorded]
      split
      · simp
      · next hne => simpa using hne
    · rintro ds hds d hd
      rw [hrecord, recorded] at hds
      split at hds
      · simp at hds
      · obtain rfl := Option.some.inj hds
        obtain ⟨a, ha, rfl⟩ := List.mem_map.mp hd
        exact h.recognised_of_mem ha
  · rw [if_neg howner] at hrecord
    rw [hrecord]
    exact ⟨by simp, fun hne => (hne rfl).elim, by simp⟩

theorem Origin.sound (h : Origin s o) : o.Sound := by
  have hnamed := Classified.isNamed h.recognised
  obtain ⟨hkind, hschema, hname⟩ := h.heading_eq
  obtain ⟨n, hn, hwellFormed⟩ := hnamed.name h.isObject
  obtain rfl : o.name = n := Option.some.inj (hname.symm.trans hn)
  have hqualified : o.qualifiedName = h.classified.toObject.qualifiedName := by
    have hr := receives_attachOne (attachables s) h.classified.toObject
    rw [← h.eq_attachOne] at hr
    exact hr.qualifiedName
  refine ⟨?_, hschema ▸ hnamed.schema, hwellFormed, ?_, ?_, h.records rfl, h.records rfl,
    h.records rfl⟩
  · have hobject := h.isObject
    rw [← hkind] at hobject
    revert hobject
    cases o.kind <;> simp [Kind.isAttachable]
  · intro hk
    have hsame := hnamed.ofSchema (hkind.symm.trans hk)
    rw [hname, ← hschema] at hsame
    exact Option.some.inj hsame
  · rw [hqualified, Classified.toObject, Classified.name, hname, hkind, hschema]
    rfl

/-- The invariant of dumps: what is said of each object, and how the objects are counted. -/
theorem parse_sound (s : Text) : (∀ o ∈ (parse s).objects, o.Sound) ∧
    (Object.counts (parse s).objects).Pairwise (fun p q => p.1.name < q.1.name) ∧
    (∀ p ∈ Object.counts (parse s).objects, 0 < p.2) ∧
    ((Object.counts (parse s).objects).map Prod.snd).sum = (parse s).objects.length := by
  refine ⟨fun o ho => ?_, Object.pairwise_counts _, fun p hp => Object.pos_of_mem_counts hp,
    Object.sum_counts _⟩
  obtain ⟨h⟩ := exists_origin ho
  exact h.sound

/-- A name with a dot in it, and one statement of each kind that may belong to a table. -/
theorem parse_sound_dotted_table :
    let sequence := ("ALTER TABLE a.\"b.c\" ALTER x ADD GENERATED ALWAYS AS IDENTITY " ++
      "(SEQUENCE NAME q);").toList
    let constraint := "ALTER TABLE ONLY a.\"b.c\" ADD CONSTRAINT k CHECK (x > 0);".toList
    let index := "CREATE INDEX ON a.\"b.c\" (x);".toList
    let s := "CREATE SCHEMA a; CREATE TABLE a.\"b.c\" (x int); ".toList ++ sequence ++ constraint ++
      "/* i */ ".toList ++ index
    let o : Object :=
      { kind := .table
        schema := ['a']
        name := "\"b.c\"".toList
        definition := ("CREATE TABLE a.\"b.c\" (x int " ++
          "GENERATED ALWAYS AS IDENTITY (SEQUENCE NAME q),\nCONSTRAINT k CHECK (x > 0)\n);\n\n" ++
          "CREATE INDEX ON a.\"b.c\" (x);").toList
        qualifiedName := some "a.\"b.c\"".toList
        sequences := some [sequence]
        constraints := some [constraint]
        indexes := some [index] }
    o ∈ (parse s).objects ∧ o.Sound ∧
      Object.counts (parse s).objects = [(.schema, 1), (.table, 1)] ∧
      ((Object.counts (parse s).objects).map Prod.snd).sum = (parse s).objects.length := by
  intro sequence constraint index s o
  have ho : o ∈ (parse s).objects := by decide +kernel
  have hcounts : Object.counts (parse s).objects = [(.schema, 1), (.table, 1)] := by
    decide +kernel
  obtain ⟨hsound, -, -, hsum⟩ := parse_sound s
  exact ⟨ho, hsound o ho, hcounts, hsum⟩

end Dump
end SchemaDump
