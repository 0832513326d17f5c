import SchemaDump.Proofs.Attachment

/-! Attachment seen from one object. What it receives hangs on the statements that name it as their
owner and on nothing else: neither on the other objects, nor on what stands between its
statements. -/
namespace SchemaDump

theorem Kind.isOwner_iff {k : Kind} : k.isOwner = true ↔ k = .table ∨ k = .view := by
  cases k <;> simp [Kind.isOwner]

namespace Attachment

variable {as bs : List Attachable} {o : Object} {key : Text}

/-- The statements of one kind that name `key` as their owner, in their order. -/
def named (as : List Attachable) (key : Text) (kind : Kind) : List Attachable :=
  as.filter fun a => a.key = key && a.kind = kind

/-- A record of statements after `own` are received: their definitions, or without any what it was
before. -/
def recorded (before : Option (List Text)) (own : List Attachable) : Option (List Text) :=
  if own = [] then before else some (own.map Attachable.definition)

/-- What `o` becomes where `as` are attached to all objects. -/
structure Receives (as : List Attachable) (o o' : Object) : Prop where
  kind : o'.kind = o.kind
  schema : o'.schema = o.schema
  name : o'.name = o.name
  qualifiedName : o'.qualifiedName = o.qualifiedName
  /-- Only tables and views that are named as an owner change. -/
  unchanged : (o.kind ≠ .table ∧ o.kind ≠ .view) ∨ (∀ a ∈ as, a.key ≠ o.key) → o' = o
  /-- Attaching its own statements to the object alone gives the same. -/
  alone : (attach [o] (as.filter fun a => a.key = o.key)).1 = [o']
  /-- All of its statements are recorded, also those that have no place in the definition. -/
  records : o.kind = .table ∨ o.kind = .view →
    o'.sequences = recorded o.sequences (named as o.key .sequence) ∧
      o'.constraints = recorded o.constraints (named as o.key .constraint) ∧
      o'.indexes = recorded o.indexes (named as o.key .index)

theorem Receives.key_eq {o' : Object} (h : Receives as o o') : o'.key = o.key := by
  rw [Object.key, Object.key, h.schema, h.name]

theorem of_eq_named (as : List Attachable) (key : Text) : Group.of (Group.keyed as) key =
    { key := key
      sequences := named as key .sequence
      constraints := named as key .constraint
      indexes := named as key .index } := by
  simp [Group.of, ofKind_of, named]

/-- What an object receives is settled by the statements of each kind that name it, and it is
nothing if the object is no table or view. -/
theorem attachOne_congr
    (h : o.kind.isOwner = true → ∀ kind, kind.isAttachable = true →
      named as o.key kind = named bs o.key kind) :
    attachOne (Group.keyed as) o = attachOne (Group.keyed bs) o := by
  rw [attachOne, attachOne]
  split
  · next ho =>
    have h := h ho
    simp only [of_eq_named, h .sequence rfl, h .constraint rfl, h .index rfl]
  · rfl

theorem named_filter_key (as : List Attachable) (key : Text) (kind : Kind) :
    named (as.filter fun a => a.key = key) key kind = named as key kind := by
  rw [named, named, List.filter_filter]
  refine List.filter_congr fun a _ => ?_
  by_cases hk : a.key = key <;> simp [hk]

theorem named_eq_nil (h : ∀ a ∈ as, a.key ≠ key) (kind : Kind) : named as key kind = [] := by
  refine List.filter_eq_nil_iff.mpr fun a ha => ?_
  simp [h a ha]

theorem definitions?_or (own : List Attachable) (before : Option (List Text)) :
    (definitions? own <|> before) = recorded before own := by
  cases own <;> simp [definitions?, recorded]

/-- A group without statements leaves an object as it is. -/
theorem attachOne_of_named_eq_nil (h : ∀ kind, named as o.key kind = []) :
    (attachOne (Group.keyed as) o).1 = o := by
  simp [attachOne, of_eq_named, h, receive, addSequences, definitions?]

theorem receives_attachOne (as : List Attachable) (o : Object) :
    Receives as o (attachOne (Group.keyed as) o).1 where
  kind := by rw [attachOne]; split <;> rfl
  schema := by rw [attachOne]; split <;> rfl
  name := by rw [attachOne]; split <;> rfl
  qualifiedName := by rw [attachOne]; split <;> rfl
  unchanged := by
    rintro (⟨ht, hv⟩ | hkey)
    · have ho : ¬ o.kind.isOwner = true := by simp [Kind.isOwner_iff, ht, hv]
      rw [attachOne, if_neg ho]
    · exact attachOne_of_named_eq_nil (named_eq_nil hkey)
  alone := by
    have hcongr : attachOne (Group.keyed (as.filter fun a => a.key = o.key)) o =
        attachOne (Group.keyed as) o :=
      attachOne_congr fun _ kind _ => named_filter_key as o.key kind
    simp [attach, hcongr]
  records := by
    intro ho
    rw [attachOne, if_pos (Kind.isOwner_iff.mpr ho), of_eq_named]
    exact ⟨definitions?_or _ _, definitions?_or _ _, definitions?_or _ _⟩

/-- Attachment is local: each object becomes what its own statements make of it. So statements may
be mixed in another way, if those of one owner and one kind keep their order. -/
theorem attach_local (os : List Object) (as : List Attachable) :
    List.Forall₂ (Receives as) os (attach os as).1 ∧
      ∀ bs, (∀ key kind, named bs key kind = named as key kind) →
        (attach os bs).1 = (attach os as).1 := by
  constructor
  · rw [attach, List.map_map, List.forall₂_map_right_iff, List.forall₂_same]
    intro o _
    exact receives_attachOne as o
  · intro bs h
    simp only [attach, List.map_map]
    refine List.map_congr_left fun o _ => ?_
    rw [Function.comp_apply, attachOne_congr fun _ kind _ => h o.key kind, Function.comp_apply]

theorem attach_local_interleaved :
    let t : Object :=
      { kind := .table, schema := "public".toList, name := "t".toList
        definition := "CREATE TABLE t (a int);".toList }
    let v : Object :=
      { kind := .view, schema := "public".toList, name := "v".toList
        definition := "CREATE VIEW v AS SELECT 1;".toList }
    let on (kind : Kind) (owner : Text) (definition : String) : Attachable :=
      { kind := kind, schema := "public".toList, table := owner, name := none
        definition := definition.toList }
    let check := on .constraint t.name "ALTER TABLE t ADD CONSTRAINT c CHECK (a > 0);"
    let torn := on .constraint t.name "ALTER TABLE t ADD"
    let i := on .index t.name "CREATE INDEX i ON t (a);"
    let j := on .index v.name "CREATE INDEX j ON v (b);"
    (∀ key kind, named [i, check, torn, j] key kind = named [check, j, torn, i] key kind) ∧
      (attach [t, v, t] [i, check, torn, j]).1 = (attach [t, v, t] [check, j, torn, i]).1 := by
  intro t v on check torn i j
  have h : ∀ key kind,
      named [i, check, torn, j] key kind = named [check, j, torn, i] key kind := by
    intro key kind
    by_cases hi : i.key = key
    · subst hi
      cases kind <;> decide
    · have ht : check.key ≠ key ∧ torn.key ≠ key := ⟨hi, hi⟩
      simp [named, List.filter_cons, hi, ht]
  exact ⟨h, (attach_local [t, v, t] [check, j, torn, i]).2 [i, check, torn, j] h⟩

end Attachment
end SchemaDump
