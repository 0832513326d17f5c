import SchemaDump.Dump
import SchemaDump.Proofs.Blanks
import SchemaDump.Proofs.Independence
import SchemaDump.Proofs.Statement.Append

/-! Two dumps in one text. Where the first is complete and neither has statements for the owners of
the other, the text comes to what both come to. -/
namespace SchemaDump

namespace Object

variable {ks : List Kind} {k : Kind}

theorem lookup_filter_counts (f : Kind → Nat) (h : k ∈ ks ∨ f k = 0) :
    (((ks.map fun k => (k, f k)).filter fun p => p.2 ≠ 0).lookup k).getD 0 = f k := by
  induction ks with
  | nil => simpa [eq_comm] using h
  | cons x ks ih =>
    rw [List.map_cons, List.filter_cons]
    by_cases hx : k = x
    · subst hx
      by_cases hf : f k = 0
      · simpa [hf] using ih (Or.inr hf)
      · simp [hf]
    · have ih := ih (h.imp_left fun hk => (List.mem_cons.mp hk).resolve_left hx)
      have hb : (k == x) = false := beq_eq_false_iff_ne.mpr hx
      split
      · rwa [List.lookup_cons, hb]
      · exact ih

/-- How often a kind is counted. -/
def countOf (os : List Object) (k : Kind) : Nat := ((counts os).lookup k).getD 0

theorem countOf_eq (os : List Object) (k : Kind) :
    countOf os k = os.countP fun o => o.kind = k := by
  refine lookup_filter_counts (fun k => os.countP fun o => o.kind = k) (Or.inl ?_)
  cases k <;> decide

end Object

namespace Dump

open Text Attachment

variable {s a b : Text} {o : Object}

/-- The objects of a dump as their statements have them. -/
def unattached (s : Text) : List Object := (parts s).filterMap Part.object?

/-- The statements of a dump that belong to tables and views. -/
def attachables (s : Text) : List Attachable := (parts s).filterMap Part.attachable?

/-- The text of a dump that belongs to no object, in fragments. -/
def fragments (s : Text) : List Text := (parts s).filterMap Part.residual?

theorem objects_eq_map (s : Text) : (parse s).objects =
    (unattached s).map fun o => (attachOne (Group.keyed (attachables s)) o).1 := by
  simp [parse, attach, unattached, attachables]

theorem residual_eq (s : Text) :
    (parse s).residual = trim (['\n'].intercalate (fragments s)) := rfl

theorem withoutBlanks_residual (s : Text) :
    withoutBlanks (parse s).residual = withoutBlanks (fragments s).flatten := by
  have hn : ∀ c ∈ ['\n'], isBlank c := by simp [isBlank]
  rw [residual_eq, withoutBlanks_trim, withoutBlanks_intercalate hn]

/-- Attachment leaves an object its kind and its name. -/
theorem exists_of_mem_unattached (ho : o ∈ unattached s) :
    ∃ o' ∈ (parse s).objects, o'.kind = o.kind ∧ o'.key = o.key := by
  have hr := receives_attachOne (attachables s) o
  exact ⟨_, objects_eq_map s ▸ List.mem_map_of_mem ho, hr.kind, hr.key_eq⟩

/-- No statement of `a` belongs to a table or view of `b`. -/
def IsApart (a b : Text) : Prop :=
  ∀ x ∈ attachables a, ∀ o ∈ (parse b).objects, o.kind = .table ∨ o.kind = .view → x.key ≠ o.key

theorem IsApart.named_eq_nil (h : IsApart a b) (ho : o ∈ unattached b)
    (howner : o.kind.isOwner = true) (kind : Kind) : named (attachables a) o.key kind = [] := by
  obtain ⟨o', ho', hkind, hkey⟩ := exists_of_mem_unattached ho
  refine Attachment.named_eq_nil (fun x hx => ?_) kind
  rw [← hkey]
  exact h x hx o' ho' (hkind ▸ Kind.isOwner_iff.mp howner)

theorem named_append (as bs : List Attachable) (key : Text) (kind : Kind) :
    named (as ++ bs) key kind = named as key kind ++ named bs key kind := List.filter_append ..

/-- Dumps are taken apart each on its own: in a text of two dumps, the first of which ends behind a
statement with all its tags closed, each object is what it is in its own dump, if no statement of
one belongs to a table or view of the other. -/
theorem parse_append (hcut : (Statement.Loop.atEnd [';'] a).sofar = [])
    (hclosed : ∀ t, Piece.dollar t ∈ Piece.ofText a → ¬ Piece.IsTag t)
    (hab : IsApart a b) (hba : IsApart b a) :
    (parse (a ++ b)).objects = (parse a).objects ++ (parse b).objects ∧
      (∀ k, Object.countOf (parse (a ++ b)).objects k =
        Object.countOf (parse a).objects k + Object.countOf (parse b).objects k) ∧
      withoutBlanks (parse (a ++ b)).residual =
        withoutBlanks (parse a).residual ++ withoutBlanks (parse b).residual := by
  have hstatements : statements (a ++ b) = statements a ++ statements b :=
    Statement.split_append_of_atEnd (Or.inl rfl) hcut fun t ht htag => (hclosed t ht htag).elim
  have hparts : parts (a ++ b) = parts a ++ parts b := by
    rw [parts, hstatements, List.filterMap_append, parts, parts]
  have hattachables : attachables (a ++ b) = attachables a ++ attachables b := by
    rw [attachables, hparts, List.filterMap_append, attachables, attachables]
  have ha : ∀ o ∈ unattached a, attachOne (Group.keyed (attachables a ++ attachables b)) o =
      attachOne (Group.keyed (attachables a)) o := by
    intro o ho
    refine attachOne_congr fun howner kind _ => ?_
    rw [named_append, hba.named_eq_nil ho howner, List.append_nil]
  have hb : ∀ o ∈ unattached b, attachOne (Group.keyed (attachables a ++ attachables b)) o =
      attachOne (Group.keyed (attachables b)) o := by
    intro o ho
    refine attachOne_congr fun howner kind _ => ?_
    rw [named_append, hab.named_eq_nil ho howner, List.nil_append]
  have hobjects : (parse (a ++ b)).objects = (parse a).objects ++ (parse b).objects := by
    rw [objects_eq_map, unattached, hparts, List.filterMap_append, List.map_append, hattachables,
      objects_eq_map a, objects_eq_map b]
    congr 1
    · exact List.map_congr_left fun o ho => by rw [ha o ho]
    · exact List.map_congr_left fun o ho => by rw [hb o ho]
  refine ⟨hobjects, fun k => ?_, ?_⟩
  · rw [Object.countOf_eq, Object.countOf_eq, Object.countOf_eq, hobjects, List.countP_append]
  · rw [withoutBlanks_residual, withoutBlanks_residual, withoutBlanks_residual, fragments, hparts,
      List.filterMap_append, List.flatten_append, withoutBlanks_append, fragments, fragments]

/-- An index in the first dump, and a setting and a constraint in the second. -/
theorem parse_append_two_tables :
    let a := ("CREATE FUNCTION f() AS $$;$$;\nCREATE TABLE t (a int);\n" ++
      "CREATE INDEX i ON t (a);").toList
    let b := ("SET x = 1;\nCREATE TABLE u (b int);\n" ++
      "ALTER TABLE u ADD CONSTRAINT c CHECK (b > 0);").toList
    let f : Object := ⟨.function, "public".toList, ['f'], "CREATE FUNCTION f() AS $$;$$;".toList,
      some "public.f".toList, none, none, none⟩
    let t : Object := ⟨.table, "public".toList, ['t'],
      "CREATE TABLE t (a int);\n\nCREATE INDEX i ON t (a);".toList, some "public.t".toList,
      none, none, some ["CREATE INDEX i ON t (a);".toList]⟩
    let u : Object := ⟨.table, "public".toList, ['u'],
      "CREATE TABLE u (b int,\nCONSTRAINT c CHECK (b > 0)\n);".toList, some "public.u".toList,
      none, some ["ALTER TABLE u ADD CONSTRAINT c CHECK (b > 0);".toList], none⟩
    (Statement.Loop.atEnd [';'] a).sofar = [] ∧
      (∀ t, Piece.dollar t ∈ Piece.ofText a → ¬ Piece.IsTag t) ∧ IsApart a b ∧ IsApart b a ∧
      (parse a).objects = [f, t] ∧ (parse b).objects = [u] ∧
      (parse (a ++ b)).objects = [f, t, u] ∧
      Object.countOf (parse (a ++ b)).objects .table = 2 ∧
      Object.countOf (parse (a ++ b)).objects .function = 1 ∧
      withoutBlanks (parse (a ++ b)).residual = "SETx=1;".toList := by
  intro a b f t u
  have hcut : (Statement.Loop.atEnd [';'] a).sofar = [] := by decide +kernel
  have hfour : ∀ p ∈ Piece.ofText a, p.text.count '$' ≠ 2 := by decide +kernel
  have hclosed : ∀ t, Piece.dollar t ∈ Piece.ofText a → ¬ Piece.IsTag t :=
    fun t ht htag => hfour _ ht htag.count_dollar
  have hab : IsApart a b := by unfold IsApart; decide +kernel
  have hba : IsApart b a := by unfold IsApart; decide +kernel
  have ha : (parse a).objects = [f, t] := by decide +kernel
  have hb : (parse b).objects = [u] := by decide +kernel
  obtain ⟨hobjects, hcounts, hresidual⟩ := parse_append hcut hclosed hab hba
  rw [ha, hb] at hobjects hcounts
  refine ⟨hcut, hclosed, hab, hba, ha, hb, hobjects, (hcounts .table).trans ?_,
    (hcounts .function).trans ?_, hresidual.trans ?_⟩
  · decide +kernel
  · decide +kernel
  · decide +kernel

end Dump
end SchemaDump
