import SchemaDump.Proofs.ColumnList

/-! Sequences of different columns in either order. Each puts its clause into an item that the other
leaves alone, so both orders give the same definition. -/
namespace SchemaDump

open Text Identifier

variable {p q clause other item definition : Text} {items : List Text} {a b : Attachable}

namespace Column

theorem isNamed_eq_false (hp : WellFormed p) (hq : WellFormed q) (hne : p ≠ q)
    (h : isNamed p item = true) : isNamed q item = false := by
  cases h' : isNamed q item with
  | false => rfl
  | true => exact (hne (eq_of_isNamed hp hq h h')).elim

/-- A clause in a column makes the item no other column's. -/
theorem isNamed_withClause (hp : WellFormed p) (hq : WellFormed q) (hne : p ≠ q)
    (h : isNamed p item = true) (clause : Text) : isNamed q (withClause clause item) = false := by
  obtain ⟨-, -, -, -, -, -, -, -, hnamed⟩ := exists_withClause hp h
  exact isNamed_eq_false hp hq hne (hnamed clause)

theorem putIn_comm (hp : WellFormed p) (hq : WellFormed q) (hne : p ≠ q) (clause other : Text)
    (items : List Text) :
    putIn p clause (putIn q other items) = putIn q other (putIn p clause items) := by
  induction items with
  | nil => rfl
  | cons item items ih =>
    by_cases hpn : isNamed p item = true
    · have hqn := isNamed_eq_false hp hq hne hpn
      have hqc := isNamed_withClause hp hq hne hpn clause
      simp [putIn, hpn, hqn, hqc]
    · by_cases hqn : isNamed q item = true
      · have hpc := isNamed_withClause hq hp hne.symm hqn other
        simp [putIn, hpn, hqn, hpc]
      · simp [putIn, hpn, hqn, ih]

/-- The other columns have the items that they had. -/
theorem forall_isNamed_putIn (hp : WellFormed p) (hq : WellFormed q) (hne : p ≠ q) (other : Text)
    (items : List Text) : (∀ item ∈ putIn q other items, isNamed p item = false) ↔
      ∀ item ∈ items, isNamed p item = false := by
  induction items with
  | nil => rfl
  | cons item items ih =>
    by_cases hqn : isNamed q item = true
    · have hpn := isNamed_eq_false hq hp hne.symm hqn
      have hpc := isNamed_withClause hq hp hne.symm hqn other
      simp [putIn, hqn, hpn, hpc]
    · simp [putIn, hqn, ih]

end Column

/-- The clause means nothing to the scanner and begins with no parenthesis. -/
structure Clause.IsModest (clause : Text) : Prop where
  plain : ∀ c ∈ [',', '\x27', '"', '$', ';', '\r'], c ∉ clause
  noMark : ∀ mark ∈ ["--", "/*", "*/"], ¬ mark.toList <:+: clause
  noParenthesis : clause.head? ≠ some '('

instance (clause : Text) : Decidable (Clause.IsModest clause) :=
  decidable_of_iff (clause.all (· ∉ [',', '\x27', '"', '$', ';', '\r']) = true ∧
    (∀ mark ∈ ["--", "/*", "*/"], ¬ mark.toList <:+: clause) ∧ clause.head? ≠ some '(')
    ⟨fun ⟨hplain, hmark, hparenthesis⟩ =>
      ⟨fun c hc hm => of_decide_eq_true (List.all_eq_true.mp hplain c hm) hc, hmark, hparenthesis⟩,
    fun h =>
      ⟨List.all_eq_true.mpr fun c hm => decide_eq_true fun hc => h.plain c hc hm, h.noMark,
        h.noParenthesis⟩⟩

theorem Clause.IsModest.isInert (h : IsModest clause) (hline : '\n' ∉ clause) :
    Statement.IsInert clause where
  plain c hc := by
    simp only [List.mem_cons, List.not_mem_nil, or_false] at hc
    obtain rfl | rfl | rfl | rfl | rfl | rfl | rfl := hc
    all_goals first | exact hline | exact h.plain _ (by simp)
  noMark := h.noMark

namespace Attachment

open Column

/-- Where no table has a list, a sequence has no turn. -/
theorem place_of_not_frames (h : ¬ ∃ head list tail, Frames head list tail definition)
    (a : Attachable) : place definition a = definition := by
  refine place_of_not_found (Or.inl (find?_eq_none_iff.mpr fun head list tail hframes => ?_))
  exact (h ⟨head, list, tail, hframes⟩).elim

/-- A definition with its list, after a sequence with a modest clause. -/
theorem frames_place {head list tail : Text} (h : Frames head list tail definition)
    (hname : a.column = some p) (hp : WellFormed p)
    (hclause : Clause.identity? a.definition = some clause) (hmodest : Clause.IsModest clause) :
    ∃ list', Frames head list' tail (place definition a) ∧
      Statement.split [','] list' = putIn p clause (Statement.split [','] list) := by
  obtain ⟨hline, hblank⟩ := Clause.identity?_spec hclause
  have hinert := hmodest.isInert hline
  refine ⟨_, ?_, split_putIn hp hinert list⟩
  rw [place_of_frames h hname hclause]
  exact h.putIn hp hinert hmodest.noParenthesis hblank

theorem place_comm (ha : a.column = some p) (hb : b.column = some q) (hp : WellFormed p)
    (hq : WellFormed q) (hne : p ≠ q)
    (hclause : ∀ x ∈ [a, b], ∀ clause, Clause.identity? x.definition = some clause →
      Clause.IsModest clause) (definition : Text) :
    place (place definition a) b = place (place definition b) a := by
  by_cases hframes : ∃ head list tail, Frames head list tail definition
  · obtain ⟨head, list, tail, h⟩ := hframes
    cases hca : Clause.identity? a.definition with
    | none =>
      have hnone (s : Text) : place s a = s := place_of_not_found (Or.inr hca)
      rw [hnone, hnone]
    | some clause =>
      cases hcb : Clause.identity? b.definition with
      | none =>
        have hnone (s : Text) : place s b = s := place_of_not_found (Or.inr hcb)
        rw [hnone, hnone]
      | some other =>
        obtain ⟨list₁, h₁, hitems₁⟩ :=
          frames_place h ha hp hca (hclause a (by simp) clause hca)
        obtain ⟨list₂, h₂, hitems₂⟩ := frames_place h hb hq hcb (hclause b (by simp) other hcb)
        rw [place_of_frames h₁ hb hcb, place_of_frames h₂ ha hca, hitems₁, hitems₂,
          putIn_comm hp hq hne]
  · rw [place_of_not_frames hframes a, place_of_not_frames hframes b,
      place_of_not_frames hframes a]

theorem find?_place_eq_none_iff (hb : b.column = some q) (hp : WellFormed p) (hq : WellFormed q)
    (hne : p ≠ q) (hclause : ∀ clause, Clause.identity? b.definition = some clause →
      Clause.IsModest clause) (definition : Text) :
    find? (place definition b) p = none ↔ find? definition p = none := by
  by_cases hframes : ∃ head list tail, Frames head list tail definition
  · obtain ⟨head, list, tail, h⟩ := hframes
    cases hcb : Clause.identity? b.definition with
    | none => rw [place_of_not_found (Or.inr hcb)]
    | some other =>
      obtain ⟨list', h', hitems⟩ := frames_place h hb hq hcb (hclause other hcb)
      rw [find?_eq_none_iff_of_frames h', find?_eq_none_iff_of_frames h, hitems,
        forall_isNamed_putIn hp hq hne]
  · rw [place_of_not_frames hframes b]

/-- Sequences of different columns give the same definition in either order, and find their columns
in either. Their clauses are to mean nothing to the scanner, and are not to begin with a
parenthesis. -/
theorem addSequences_comm (definition : Text) (ha : a.column = some p) (hb : b.column = some q)
    (hp : WellFormed p) (hq : WellFormed q) (hne : p ≠ q)
    (hclause : ∀ x ∈ [a, b], ∀ clause, Clause.identity? x.definition = some clause →
      Clause.IsModest clause) :
    (addSequences definition [a, b]).1 = (addSequences definition [b, a]).1 ∧
      (find? (addSequences definition [b]).1 p = none ↔ find? definition p = none) ∧
      (find? (addSequences definition [a]).1 q = none ↔ find? definition q = none) := by
  rw [fst_addSequences, fst_addSequences, fst_addSequences, fst_addSequences]
  refine ⟨place_comm ha hb hp hq hne hclause definition, ?_, ?_⟩
  · exact find?_place_eq_none_iff hb hp hq hne (hclause b (by simp)) definition
  · exact find?_place_eq_none_iff ha hq hp hne.symm (hclause a (by simp)) definition

/-- The columns are looked for behind the header in quotes, and one clause goes into a comment. -/
theorem addSequences_comm_quoted_header :
    let definition := ("CREATE TABLE \"CREATE TABLE u (\" (\n  \"a, b\" int -- $note\n    NOT NULL,\n" ++
      "  id int DEFAULT f(';', \"id\"),\n  c text);").toList
    let sequence (column : String) : Attachable :=
      { kind := .sequence
        schema := "public".toList
        table := "t".toList
        name := some "public.s".toList
        column := some column.toList
        definition := ("ALTER TABLE t ALTER COLUMN " ++ column ++
          " ADD GENERATED ALWAYS AS IDENTITY (\n    SEQUENCE NAME s\n);").toList }
    let a := sequence "\"a, b\""
    let b := sequence "id"
    a.column = some "\"a, b\"".toList ∧ b.column = some "id".toList ∧
      WellFormed "\"a, b\"".toList ∧ WellFormed "id".toList ∧
      "\"a, b\"".toList ≠ "id".toList ∧
      (∀ x ∈ [a, b], ∀ clause, Clause.identity? x.definition = some clause →
        Clause.IsModest clause) ∧
      (addSequences definition [a, b]).1 = (addSequences definition [b, a]).1 ∧
      (find? (addSequences definition [b]).1 "\"a, b\"".toList = none ↔
        find? definition "\"a, b\"".toList = none) ∧
      (find? (addSequences definition [a]).1 "id".toList = none ↔
        find? definition "id".toList = none) := by
  intro definition sequence a b
  have hp : WellFormed "\"a, b\"".toList := .quoted (s := "a, b".toList) (by decide)
  have hq : WellFormed "id".toList := .bare (by decide) (List.all_eq_true.mp (by decide))
  have hne : "\"a, b\"".toList ≠ "id".toList := by decide
  have hclauses : ∀ x ∈ [a, b], (Clause.identity? x.definition).all
      fun clause => Clause.IsModest clause := by
    decide +kernel
  have hclause : ∀ x ∈ [a, b], ∀ clause, Clause.identity? x.definition = some clause →
      Clause.IsModest clause := by
    intro x hx clause h
    have hall := hclauses x hx
    rw [h] at hall
    exact of_decide_eq_true hall
  exact ⟨rfl, rfl, hp, hq, hne, hclause, addSequences_comm definition rfl rfl hp hq hne hclause⟩

/-- A clause that begins with a parenthesis may complete a header, and the columns are looked for
behind it from then on. -/
theorem addSequences_order_matters :
    let definition := "CREATE TABLE \"x CREATE TABLE t (b int, a \");".toList
    let sequence (column addition : String) : Attachable :=
      { kind := .sequence
        schema := "public".toList
        table := "t".toList
        name := some "public.s".toList
        column := some column.toList
        definition := ("ALTER TABLE t ALTER COLUMN " ++ column ++ " ADD " ++ addition).toList }
    let a := sequence "a" "(z"
    let b := sequence "b" "GENERATED ALWAYS AS IDENTITY (SEQUENCE NAME s);"
    WellFormed "a".toList ∧ WellFormed "b".toList ∧
      Clause.identity? a.definition = some "(z".toList ∧
      Clause.identity? b.definition =
        some "GENERATED ALWAYS AS IDENTITY (SEQUENCE NAME s)".toList ∧
      (∀ clause ∈ ["(z", "GENERATED ALWAYS AS IDENTITY (SEQUENCE NAME s)"],
        (∀ c ∈ [',', '\x27', '"', '$', ';', '\r'], c ∉ clause.toList) ∧
          ∀ mark ∈ ["--", "/*", "*/"], ¬ mark.toList <:+: clause.toList) ∧
      (addSequences definition [a, b]).1 =
        "CREATE TABLE \"x CREATE TABLE t (b int, a \" (z);".toList ∧
      (addSequences definition [b, a]).1 =
        ("CREATE TABLE \"x CREATE TABLE t (b int GENERATED ALWAYS AS IDENTITY " ++
          "(SEQUENCE NAME s), a \" (z);").toList ∧
      (addSequences definition [a, b]).1 ≠ (addSequences definition [b, a]).1 := by
  intro definition sequence a b
  have hplain : ∀ clause ∈ ["(z", "GENERATED ALWAYS AS IDENTITY (SEQUENCE NAME s)"],
      (clause.toList.all (· ∉ [',', '\x27', '"', '$', ';', '\r'])) = true ∧
        ∀ mark ∈ ["--", "/*", "*/"], ¬ mark.toList <:+: clause.toList := by
    decide +kernel
  refine ⟨.bare (by decide) (by simp), .bare (by decide) (by simp), ?_, ?_, ?_, ?_, ?_, ?_⟩
  · decide +kernel
  · decide +kernel
  · intro clause hclause
    obtain ⟨hall, hmark⟩ := hplain clause hclause
    exact ⟨fun c hc hm => of_decide_eq_true (List.all_eq_true.mp hall c hm) hc, hmark⟩
  · decide +kernel
  · decide +kernel
  · decide +kernel

end Attachment
end SchemaDump
