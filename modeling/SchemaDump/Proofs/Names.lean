import SchemaDump.Proofs.Classification
import SchemaDump.Proofs.Identifiers

/-! The names in headings. Whatever text a statement has, the schema, the name and the table that
its heading gives are identifiers. -/
namespace SchemaDump

namespace Reading

variable {α β : Type} {r t : Reading α} {f : α → Reading β} {P : α → Prop} {Q : β → Prop}

/-- Every value that is read passes `P`. -/
def Gives (r : Reading α) (P : α → Prop) : Prop := ∀ s a rest, (a, rest) ∈ r s → P a

theorem gives_pure {a : α} (h : P a) : Gives (pure a) P := by
  intro s b rest hb
  rw [(mem_pure.mp hb).1]
  exact h

theorem Gives.bind (hr : Gives r P) (hf : ∀ a, P a → Gives (f a) Q) : Gives (r >>= f) Q := by
  intro s b rest hb
  obtain ⟨a, u, ha, hb⟩ := mem_bind.mp hb
  exact hf a (hr s a u ha) u b rest hb

/-- Of a reading whose value does not matter. -/
theorem gives_bind (hf : ∀ a, Gives (f a) Q) : Gives (r >>= f) Q := by
  intro s b rest hb
  obtain ⟨a, u, -, hb⟩ := mem_bind.mp hb
  exact hf a u b rest hb

theorem Gives.orElse (hr : Gives r P) (ht : Gives t P) : Gives (r <|> t) P := by
  intro s a rest ha
  exact (mem_orElse.mp ha).elim (hr s a rest) (ht s a rest)

theorem Gives.optional (hr : Gives r P) : Gives (optional r) fun o => ∀ a ∈ o, P a := by
  refine Gives.orElse (hr.bind fun a ha => gives_pure ?_) (gives_pure ?_)
  · rintro b ⟨⟩
    exact ha
  · rintro b ⟨⟩

end Reading

open Reading Identifier

theorem gives_identifierBefore (p : Text → Bool) : Gives (identifierBefore p) WellFormed :=
  fun _ _ _ h => wellFormed_of_mem_identifierBefore h

theorem gives_identifier : Gives identifier WellFormed := gives_identifierBefore _

namespace QualifiedName

/-- Both names are identifiers. -/
structure WellFormed (q : QualifiedName) : Prop where
  schema : ∀ s ∈ q.schema, Identifier.WellFormed s
  name : Identifier.WellFormed q.name

theorem wellFormed_publicSchema : Identifier.WellFormed publicSchema :=
  .bare (by decide) (List.all_eq_true.mp (by decide))

variable {q : QualifiedName}

theorem WellFormed.schemaOrPublic (h : q.WellFormed) : Identifier.WellFormed q.schemaOrPublic := by
  cases hs : q.schema with
  | none =>
    rw [QualifiedName.schemaOrPublic, hs]
    exact wellFormed_publicSchema
  | some s =>
    rw [QualifiedName.schemaOrPublic, hs]
    exact h.schema s hs

end QualifiedName

theorem gives_qualifiedNameBefore (p : Text → Bool) :
    Gives (qualifiedNameBefore p) QualifiedName.WellFormed := by
  refine Gives.orElse (gives_identifier.bind fun s hs => gives_bind fun _ => ?_) ?_
  · refine (gives_identifierBefore p).bind fun n hn => gives_pure ⟨?_, hn⟩
    rintro t ⟨⟩
    exact hs
  · exact (gives_identifierBefore p).bind fun n hn => gives_pure ⟨nofun, hn⟩

namespace Heading

variable {what : Reading Unit}

/-- An object has a name of its own, an attachable statement the name of a table. -/
structure IsNamed (k : Kind) (h : Heading) : Prop where
  schema : WellFormed h.schema
  name : k.isAttachable = false → ∃ n, h.name = some n ∧ WellFormed n
  table : k.isAttachable = true → ∃ t, h.table = some t ∧ WellFormed t
  ofSchema : k = .schema → h.name = some h.schema

theorem gives_creation (what : Reading Unit) :
    Gives (creation what) fun h => WellFormed h.schema ∧ ∃ n, h.name = some n ∧ WellFormed n := by
  iterate 4 refine gives_bind fun _ => ?_
  refine (gives_qualifiedNameBefore _).bind fun q hq => gives_pure ?_
  exact ⟨hq.schemaOrPublic, q.name, rfl, hq.name⟩

theorem gives_alteredTable : Gives alteredTable QualifiedName.WellFormed := by
  iterate 5 refine gives_bind fun _ => ?_
  exact gives_qualifiedNameBefore _

theorem gives_columnAddition : Gives columnAddition fun p => p.1.WellFormed := by
  refine gives_alteredTable.bind fun q hq => ?_
  iterate 8 refine gives_bind fun _ => ?_
  exact gives_pure hq

theorem gives_ofSchema : Gives ofSchema (IsNamed .schema) := by
  iterate 4 refine gives_bind fun _ => ?_
  refine gives_identifier.bind fun n hn => gives_pure ?_
  exact ⟨hn, fun _ => ⟨n, rfl, hn⟩, nofun, fun _ => rfl⟩

theorem gives_ofExtension : Gives ofExtension (IsNamed .extension) := by
  iterate 5 refine gives_bind fun _ => ?_
  refine gives_identifier.bind fun n hn => ?_
  refine (Gives.optional (P := WellFormed) ?_).bind fun schema hs => gives_pure ?_
  · iterate 3 refine gives_bind fun _ => ?_
    exact gives_identifier
  · refine ⟨?_, fun _ => ⟨n, rfl, hn⟩, nofun, nofun⟩
    cases schema with
    | none => exact QualifiedName.wellFormed_publicSchema
    | some s => exact hs s rfl

theorem gives_ofSequence : Gives ofSequence (IsNamed .sequence) := by
  refine gives_columnAddition.bind fun p hp => ?_
  iterate 15 refine gives_bind fun _ => ?_
  exact gives_pure ⟨hp.schemaOrPublic, nofun, fun _ => ⟨_, rfl, hp.name⟩, nofun⟩

theorem gives_ofConstraint : Gives ofConstraint (IsNamed .constraint) := by
  refine gives_alteredTable.bind fun q hq => ?_
  iterate 6 refine gives_bind fun _ => ?_
  exact gives_pure ⟨hq.schemaOrPublic, nofun, fun _ => ⟨_, rfl, hq.name⟩, nofun⟩

theorem gives_ofIndex : Gives ofIndex (IsNamed .index) := by
  iterate 9 refine gives_bind fun _ => ?_
  refine (gives_qualifiedNameBefore _).bind fun q hq => gives_pure ?_
  exact ⟨hq.schemaOrPublic, nofun, fun _ => ⟨_, rfl, hq.name⟩, nofun⟩

end Heading

theorem Kind.gives_heading (k : Kind) : Gives k.heading (Heading.IsNamed k) := by
  cases k with
  | schema => exact Heading.gives_ofSchema
  | extension => exact Heading.gives_ofExtension
  | sequence => exact Heading.gives_ofSequence
  | constraint => exact Heading.gives_ofConstraint
  | index => exact Heading.gives_ofIndex
  | type | domain | function | procedure | table | view =>
    intro s h rest hr
    obtain ⟨hschema, hname⟩ := Heading.gives_creation _ s h rest hr
    exact ⟨hschema, fun _ => hname, nofun, nofun⟩

/-- What a statement is recognised as has identifiers for names. -/
theorem Classified.isNamed {s : Text} {c : Classified} (h : ofStatement? s = some c) :
    c.heading.IsNamed c.kind := by
  obtain ⟨rest, more, hr⟩ := (decides_of_ofStatement? h).reads
  exact c.kind.gives_heading c.definition c.heading rest (hr ▸ List.mem_cons_self)

end SchemaDump
