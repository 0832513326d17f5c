import SchemaDump.Proofs.Objects

/-! Who owns a statement. It goes by the text of its owner's name, in which a dot stands between
schema and table. Dots and quotes within quoted names leave no doubt where the schema ends, so the
statement is recorded on no object of another name. -/
namespace SchemaDump.Dump

open Attachment Identifier

variable {s : Text} {o : Object} {a b : Attachable}

theorem isAttachable_of_mem (ha : a ∈ attachables s) : a.kind.isAttachable = true := by
  obtain ⟨_, -, c, -, hkind, rfl⟩ := exists_of_mem_attachables ha
  exact hkind

/-- A statement of a dump can be told by its text alone. -/
theorem eq_of_definition_eq (ha : a ∈ attachables s) (hb : b ∈ attachables s)
    (h : a.definition = b.definition) : a = b := by
  obtain ⟨_, -, c, hc, -, rfl⟩ := exists_of_mem_attachables ha
  obtain ⟨_, -, d, hd, -, rfl⟩ := exists_of_mem_attachables hb
  have hrecognised := congrArg Classified.ofStatement? h
  change Classified.ofStatement? c.definition = Classified.ofStatement? d.definition at hrecognised
  rw [Classified.ofStatement?_definition hc, Classified.ofStatement?_definition hd] at hrecognised
  have hattachable := congrArg Classified.toAttachable (Option.some.inj hrecognised)
  exact hattachable

/-- The names of a statement's owner are identifiers. -/
theorem wellFormed_of_mem_attachables (ha : a ∈ attachables s) :
    WellFormed a.schema ∧ WellFormed a.table := by
  obtain ⟨_, -, c, hc, hkind, rfl⟩ := exists_of_mem_attachables ha
  have hnamed := Classified.isNamed hc
  obtain ⟨t, ht, htable⟩ := hnamed.table hkind
  refine ⟨hnamed.schema, ?_⟩
  rwa [Classified.toAttachable, ht, Option.getD_some]

/-- What a statement calls its owner is the text of an object's name only if it is its name. -/
theorem Origin.key_eq_iff (h : Origin s o) (ha : a ∈ attachables s) :
    a.key = h.classified.toObject.key ↔ a.schema = o.schema ∧ a.table = o.name := by
  obtain ⟨-, hschema, hname⟩ := h.heading_eq
  have hkey : h.classified.toObject.key = qualify o.schema o.name := by
    rw [Object.key, Classified.toObject, Classified.name, hname, hschema, Option.getD_some]
  have howner := (Classified.isNamed h.recognised).schema
  rw [← hschema] at howner
  rw [hkey]
  exact qualify_inj (wellFormed_of_mem_attachables ha).1 howner

theorem Origin.mem_recordOf_iff (h : Origin s o) (ha : a ∈ attachables s) :
    (∃ ds ∈ recordOf o a.kind, a.definition ∈ ds) ↔
      o.kind.isOwner = true ∧ a.schema = o.schema ∧ a.table = o.name := by
  obtain ⟨hkind, -⟩ := h.heading_eq
  rw [← h.key_eq_iff ha, hkind, h.recordOf_eq (isAttachable_of_mem ha)]
  cases howner : h.classified.kind.isOwner with
  | false => simp
  | true =>
    rw [if_pos rfl, recorded]
    constructor
    · rintro ⟨ds, hds, hmem⟩
      split at hds
      · cases hds
      · obtain rfl := Option.some.inj hds
        obtain ⟨b, hb, hdefinition⟩ := List.mem_map.mp hmem
        obtain ⟨hb, hown⟩ := List.mem_filter.mp hb
        obtain rfl := eq_of_definition_eq hb ha hdefinition
        obtain ⟨hkey, -⟩ : b.key = h.classified.toObject.key ∧ b.kind = b.kind := by
          simpa using hown
        exact ⟨rfl, hkey⟩
    · rintro ⟨-, hkey⟩
      have hmem : a ∈ named (attachables s) h.classified.toObject.key a.kind :=
        List.mem_filter.mpr ⟨ha, by simp [hkey]⟩
      rw [if_neg (List.ne_nil_of_mem hmem)]
      exact ⟨_, rfl, List.mem_map_of_mem hmem⟩

/-- Two names with their schemas have the same text only if they are the same, and names are all
that headings give. So a statement of a dump is recorded on a table or view just if it names this as
its owner. -/
theorem recorded_iff_owner :
    (∀ st c, Classified.ofStatement? st = some c → c.heading.IsNamed c.kind) ∧
      (∀ schema name schema' name', WellFormed schema → WellFormed name → WellFormed schema' →
        WellFormed name' → qualify schema name = qualify schema' name' →
          schema = schema' ∧ name = name') ∧
      ∀ s, ∀ o ∈ (parse s).objects, ∀ a ∈ attachables s,
        (∃ ds ∈ recordOf o a.kind, a.definition ∈ ds) ↔
          (o.kind = .table ∨ o.kind = .view) ∧ a.schema = o.schema ∧ a.table = o.name := by
  refine ⟨fun st c => Classified.isNamed, fun s t s' t' hs _ hs' _ => (qualify_inj hs hs').mp, ?_⟩
  intro s o ho a ha
  obtain ⟨h⟩ := exists_origin ho
  rw [← Kind.isOwner_iff]
  exact h.mem_recordOf_iff ha

/-- Quoted names with dots and quotes in them, of which the texts differ only in where they end. -/
theorem recorded_iff_owner_dotted :
    let s := ("CREATE TABLE \"a.b\".c (x int);\nCREATE TABLE \"a\".\"b\"\"\".c (x int);\n" ++
      "CREATE VIEW \"a\".\"b.c\" AS SELECT 1;\nCREATE INDEX i ON \"a\".\"b.c\" (x);").toList
    let index := "CREATE INDEX i ON \"a\".\"b.c\" (x);".toList
    let a : Attachable :=
      { kind := .index
        schema := "\"a\"".toList
        table := "\"b.c\"".toList
        name := some "i".toList
        definition := index }
    WellFormed "\"a.b\"".toList ∧ WellFormed "\"c\"".toList ∧
      qualify "\"a.b\"".toList "\"c\"".toList ≠ qualify "\"a\"".toList "\"b.c\"".toList ∧
      a ∈ attachables s ∧
      ∀ o ∈ (parse s).objects, (∃ ds ∈ recordOf o .index, index ∈ ds) ↔ o.kind = .view := by
  intro s index a
  have hab : WellFormed "\"a.b\"".toList := .quoted (s := "a.b".toList) (by decide)
  have hc : WellFormed "\"c\"".toList := .quoted (s := "c".toList) (by decide)
  have ha : WellFormed "\"a\"".toList := .quoted (s := "a".toList) (by decide)
  have hbc : WellFormed "\"b.c\"".toList := .quoted (s := "b.c".toList) (by decide)
  obtain ⟨-, hqualify, hrecord⟩ := recorded_iff_owner
  have hmem : a ∈ attachables s := by decide +kernel
  have hobjects : ∀ o ∈ (parse s).objects,
      ((o.kind = .table ∨ o.kind = .view) ∧ a.schema = o.schema ∧ a.table = o.name) ↔
        o.kind = .view := by
    decide +kernel
  refine ⟨hab, hc, fun h => ?_, hmem, fun o ho => ?_⟩
  · have hsame := (hqualify _ _ _ _ hab hc ha hbc h).1
    revert hsame
    decide
  · exact (hrecord s o ho a hmem).trans (hobjects o ho)

end SchemaDump.Dump
