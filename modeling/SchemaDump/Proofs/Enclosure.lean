import SchemaDump.Proofs.Attachment
import SchemaDump.Proofs.Locality
import SchemaDump.Proofs.Statement.Parentheses

/-! The list of a table definition, and what attachment puts into it. The closing parenthesis is
looked for from the end of the text, without regard to comments and strings: it is the one that
matches the first only if no other stands behind it before the last semicolon. -/
namespace SchemaDump

open Statement Text

variable {front list inside tail clause s t : Text} {as : List Attachable} {os : List Object}
  {o : Object} {i : Nat}

/-- A clause put before the parenthesis leaves it the last if it brings no semicolon that would then
be the last. -/
theorem IsLastParenthesis.insert {l r : Text} (h : IsLastParenthesis (l ++ r) tail)
    (hc : ';' ∈ tail ∨ ';' ∉ clause) : IsLastParenthesis (l ++ ' ' :: clause ++ r) tail := by
  obtain h | ⟨hs, hp⟩ := h
  · exact Or.inl h
  · have htail : ';' ∉ tail := fun hm => hs (List.mem_append_right _ hm)
    have hclause : ';' ∉ clause := hc.resolve_left htail
    refine Or.inr ⟨?_, hp⟩
    simp_all

namespace Attachment

/-- A clause goes into the list if that ends with the last parenthesis and no header is complete
before it. -/
theorem exists_insert_in_list {name : Text} {column : Column}
    (hheader : Column.tableHeader.search front = none)
    (hlast : IsLastParenthesis (front ++ ['('] ++ s) tail)
    (h : Column.find? (front ++ ['('] ++ s ++ ')' :: tail) name = some column) :
    ∃ l r, s = l ++ r ∧ ∀ clause,
      column.insert clause = front ++ ['('] ++ (l ++ ' ' :: clause ++ r) ++ ')' :: tail := by
  obtain ⟨header, inside, closing, left, right, hsearch, hclosing, hcut, hlt, hle, hinsert⟩ :=
    Column.exists_insert_of_find? h
  rw [closingParenthesis?_append hlast] at hclosing
  cases hclosing
  have hrest : header.rest.length ≤ ('(' :: (s ++ ')' :: tail)).length := by
    refine (Column.isLocal_tableHeader (by simp)).length_rest_le hheader ?_
    rw [← hsearch]
    simp
  have hleft : left <+: front ++ ['('] ++ s ++ ')' :: tail := hcut ▸ List.prefix_append _ _
  have hfront : front ++ ['('] <+: left := by
    refine List.prefix_of_prefix_length_le ?_ hleft ?_
    · rw [List.append_assoc]
      exact List.prefix_append _ _
    · simp only [List.length_append, List.length_cons, List.length_nil] at hrest hlt ⊢
      omega
  obtain ⟨l, rfl⟩ := hfront
  have hinside : l <+: s := by
    refine (List.prefix_append_right_inj (front ++ ['('])).mp ?_
    exact List.prefix_of_prefix_length_le hleft (List.prefix_append _ (')' :: tail)) hle
  obtain ⟨r, rfl⟩ := hinside
  refine ⟨l, r, rfl, fun clause => ?_⟩
  have hright : right = r ++ ')' :: tail := by
    simpa using hcut.symm
  rw [hinsert, hright]
  simp

/-- Sequences put their clauses into the list. -/
theorem exists_places_in_list (hheader : as ≠ [] → Column.tableHeader.search front = none)
    (hlast : IsLastParenthesis (front ++ ['('] ++ list) tail)
    (hsemi : ';' ∈ tail ∨ ∀ a ∈ as, ∀ clause, Clause.identity? a.definition = some clause →
      ';' ∉ clause) :
    ∃ identities placed, Places (front ++ ['(']) (')' :: tail) list as identities placed ∧
      (addSequences (front ++ ['('] ++ list ++ ')' :: tail) as).1 =
        front ++ ['('] ++ placed ++ ')' :: tail ∧
      IsLastParenthesis (front ++ ['('] ++ placed) tail := by
  by_cases hempty : as = []
  · subst hempty
    exact ⟨[], list, .nil, rfl, hlast⟩
  refine exists_places _ _ _ (P := fun s => IsLastParenthesis (front ++ ['('] ++ s) tail)
    ?_ ?_ hlast
  · intro s name column hs h
    exact exists_insert_in_list (hheader hempty) hs h
  · intro a ha clause hclause l r hs
    have hc : ';' ∈ tail ∨ ';' ∉ clause := hsemi.imp_right fun hno => hno a ha clause hclause
    have hi := IsLastParenthesis.insert (l := front ++ ['('] ++ l) (r := r) (by simpa using hs) hc
    simpa using hi

/-- Constraints join the list that ends with the last parenthesis. -/
theorem exists_joins_in_list (hlast : IsLastParenthesis (front ++ ['('] ++ list) tail)
    (as : List Attachable) :
    ∃ joined, Joins list (as.filterMap fun a => Clause.constraint? a.definition) joined ∧
      (addConstraints (front ++ ['('] ++ list ++ ')' :: tail) as).1 =
        front ++ ['('] ++ joined ++ ')' :: tail := by
  rw [List.append_assoc, List.singleton_append] at hlast
  obtain ⟨indent, hindent, hadded⟩ := fst_addConstraints_of_isLast hlast as
  exact ⟨_, joins_join hindent list _, by simpa using hadded⟩

theorem exists_definition_attachOne (htext : o.definition = front ++ ['('] ++ list ++ ')' :: tail)
    (hlast : IsLastParenthesis (front ++ ['('] ++ list) tail)
    (hheader : o.statements as .sequence ≠ [] → Column.tableHeader.search front = none)
    (hsemi : ';' ∈ tail ∨ ∀ a ∈ o.statements as .sequence, ∀ clause,
      Clause.identity? a.definition = some clause → ';' ∉ clause) :
    ∃ identities placed joined,
      Places (front ++ ['(']) (')' :: tail) list (o.statements as .sequence) identities placed ∧
      Joins placed
        ((o.statements as .constraint).filterMap fun a => Clause.constraint? a.definition) joined ∧
      (attachOne (Group.keyed as) o).1.definition =
        front ++ ['('] ++ joined ++ ')' :: tail ++ indexLines (o.statements as .index) := by
  obtain ⟨identities, placed, hplaces, hsequences, hlast'⟩ :=
    exists_places_in_list hheader hlast hsemi
  obtain ⟨joined, hjoins, hconstraints⟩ := exists_joins_in_list hlast' (o.statements as .constraint)
  refine ⟨identities, placed, joined, hplaces, hjoins, ?_⟩
  rw [definition_attachOne, htext, hsequences, hconstraints]

/-- All clauses for an object whose parentheses match go between the first of them and the one that
matches it, if that is the last before the last semicolon. For sequences it is also needed that no
table header is complete before the list, and that none brings a semicolon where none follows the
list. What follows the list is as it was, with the indexes behind it. -/
theorem attach_encloses (hi : os[i]? = some o) (p : Parenthesised o.definition)
    (hlast : IsLastParenthesis (p.before ++ ['('] ++ p.list) p.after)
    (hheader : o.statements as .sequence ≠ [] → Column.tableHeader.search p.before = none)
    (hsemi : ';' ∈ p.after ∨ ∀ a ∈ o.statements as .sequence, ∀ clause,
      Clause.identity? a.definition = some clause → ';' ∉ clause) :
    ∃ o' identities placed joined, (attach os as).1[i]? = some o' ∧
      Places (p.before ++ ['(']) (')' :: p.after) p.list (o.statements as .sequence) identities
        placed ∧
      Joins placed
        ((o.statements as .constraint).filterMap fun a => Clause.constraint? a.definition) joined ∧
      o'.definition = p.before ++ ['('] ++ joined ++ ')' :: p.after ++
        indexLines (o.statements as .index) := by
  have htext : o.definition = p.before ++ ['('] ++ p.list ++ ')' :: p.after :=
    p.text_eq.trans (by simp)
  obtain ⟨identities, placed, joined, hplaces, hjoins, hdefinition⟩ :=
    exists_definition_attachOne htext hlast hheader hsemi
  have hget : (attach os as).1[i]? = some (attachOne (Group.keyed as) o).1 := by
    simp [attach, hi]
  exact ⟨_, identities, placed, joined, hget, hplaces, hjoins, hdefinition⟩

theorem attach_encloses_quoted_parentheses :
    let front := "CREATE TABLE t ".toList
    let list := "\n  id int NOT NULL, -- )\n  note text DEFAULT ':('\n".toList
    let back := " TABLESPACE x;".toList
    let o : Object :=
      { kind := .table
        schema := "public".toList
        name := "t".toList
        definition := front ++ '(' :: (list ++ ')' :: back) }
    let as : List Attachable :=
      [{ kind := .constraint
         schema := "public".toList
         table := "t".toList
         name := some "c".toList
         definition := "ALTER TABLE t ADD CONSTRAINT c CHECK (id > 0);".toList },
       { kind := .sequence
         schema := "public".toList
         table := "t".toList
         name := some "public.s".toList
         column := some "id".toList
         definition :=
          "ALTER TABLE t ALTER id ADD GENERATED ALWAYS AS IDENTITY (SEQUENCE NAME s);".toList }]
    ∃ p : Parenthesised o.definition, p.before = front ∧ p.list = list ∧ p.after = back ∧
      IsLastParenthesis (p.before ++ ['('] ++ p.list) p.after ∧
      Column.tableHeader.search p.before = none ∧ ';' ∈ p.after ∧
      ∃ o' identities placed joined, (attach [o] as).1[0]? = some o' ∧
        Places (p.before ++ ['(']) (')' :: p.after) p.list (o.statements as .sequence) identities
          placed ∧
        Joins placed
          ((o.statements as .constraint).filterMap fun a => Clause.constraint? a.definition)
          joined ∧
        o'.definition = p.before ++ ['('] ++ joined ++ ')' :: p.after ++
          indexLines (o.statements as .index) := by
  intro front list back o as
  obtain ⟨p, hbefore, hlist, hafter⟩ := Parenthesised.exists_of_texts front list back
    (by decide +kernel) (by decide +kernel)
  have hlast : IsLastParenthesis (p.before ++ ['('] ++ p.list) p.after := by
    rw [hafter]
    exact Or.inl ⟨" TABLESPACE x".toList, [], rfl, by decide, by decide⟩
  have hheader : Column.tableHeader.search p.before = none := by
    rw [hbefore]
    decide +kernel
  have hsemi : ';' ∈ p.after := by
    rw [hafter]
    decide
  have hi : [o][0]? = some o := rfl
  exact ⟨p, hbefore, hlist, hafter, hlast, hheader, hsemi,
    attach_encloses hi p hlast (fun _ => hheader) (Or.inl hsemi)⟩

/-- A table by the parts of its definition: what comes before its list, the list and what comes
behind. -/
def listed (front list back : String) : Object :=
  { kind := .table
    schema := "public".toList
    name := "t".toList
    definition := front.toList ++ '(' :: (list.toList ++ ')' :: back.toList) }

def checkOfT : Attachable :=
  { kind := .constraint
    schema := "public".toList
    table := "t".toList
    name := some "c".toList
    definition := "ALTER TABLE t ADD CONSTRAINT c CHECK (a > 0);".toList }

/-- The identity clause of a column of `t`, with the name of its sequence. -/
def identityOfT (column sequence : String) : Attachable :=
  { kind := .sequence
    schema := "public".toList
    table := "t".toList
    name := some sequence.toList
    column := some column.toList
    definition := ("ALTER TABLE t ALTER " ++ column ++
      " ADD GENERATED ALWAYS AS IDENTITY (SEQUENCE NAME " ++ sequence ++ ");").toList }

/-- The table has its list where its parts say, and gets this definition. -/
def Becomes (front list back : String) (as : List Attachable) (result : String) : Prop :=
  (∃ p : Parenthesised (listed front list back).definition,
    p.before = front.toList ∧ p.list = list.toList ∧ p.after = back.toList) ∧
  (attach [listed front list back] as).1.map Object.definition = [result.toList]

/-- Clauses go elsewhere if a parenthesis comes behind the list, and if a header stands in a comment
before it. A semicolon in an identity clause may leave no place for constraints, and without a
column there is none for an identity clause. -/
theorem clauses_outside_list :
    Becomes "CREATE TABLE t " "a int" " WITH (fillfactor=70);" [checkOfT]
        "CREATE TABLE t (a int) WITH (fillfactor=70,\nCONSTRAINT c CHECK (a > 0)\n);" ∧
      Becomes "CREATE TABLE t /* CREATE TABLE u (x int, */ " "a int" ";" [identityOfT "x" "s"]
        ("CREATE TABLE t /* CREATE TABLE u (x int GENERATED ALWAYS AS IDENTITY " ++
          "(SEQUENCE NAME s), */ (a int);") ∧
      Becomes "CREATE TABLE t " "a int" "" [identityOfT "a" "\"s;\"", checkOfT]
        "CREATE TABLE t (a int GENERATED ALWAYS AS IDENTITY (SEQUENCE NAME \"s;\"))" ∧
      Becomes "CREATE TABLE t " "a int" ";" [identityOfT "b" "s"] "CREATE TABLE t (a int);" := by
  refine ⟨⟨?_, ?_⟩, ⟨?_, ?_⟩, ⟨?_, ?_⟩, ⟨?_, ?_⟩⟩
  · exact Parenthesised.exists_of_texts _ _ _ (by decide +kernel) (by decide +kernel)
  · decide +kernel
  · exact Parenthesised.exists_of_texts _ _ _ (by decide +kernel) (by decide +kernel)
  · decide +kernel
  · exact Parenthesised.exists_of_texts _ _ _ (by decide +kernel) (by decide +kernel)
  · decide +kernel
  · exact Parenthesised.exists_of_texts _ _ _ (by decide +kernel) (by decide +kernel)
  · decide +kernel

end Attachment
end SchemaDump
