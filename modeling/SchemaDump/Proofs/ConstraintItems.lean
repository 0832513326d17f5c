import SchemaDump.Proofs.Attachment
import SchemaDump.Proofs.Statement.Items

/-! Constraints as items of a table's list. Each clause comes behind a comma, which is one between
items only if nothing is left open before it. -/
namespace SchemaDump.Attachment

open Text

variable {front list tail clause : Text} {as : List Attachable}

theorem trim_ne_nil_of_constraint? {s : Text} (h : Clause.constraint? s = some clause) :
    trim clause ≠ [] := by
  obtain ⟨found, -, rfl⟩ := Option.map_eq_some_iff.mp h
  rw [Ne, trim_eq_nil_iff]
  intro hblank
  exact absurd (hblank 'C' (by simp)) (by decide)

/-- The joined list has the items of both. -/
theorem items_join {indent : Text} {clauses : List Text} (hindent : ∀ c ∈ indent, isBlank c = true)
    (hlist : trim list ≠ []) (hclauses : ∀ clause ∈ clauses, trim clause ≠ [])
    (hparts : (trimEnd list :: clauses).Pairwise Statement.Parts) :
    Statement.items (join indent list clauses) =
      Statement.items list ++ clauses.flatMap Statement.items := by
  by_cases hn : clauses = []
  · simp [join, hn]
  · have hblanks : ∀ c ∈ '\n' :: indent, isBlank c = true := List.forall_mem_cons.mpr ⟨rfl, hindent⟩
    have hend : ∀ c ∈ list.rtakeWhile isBlank, isBlank c = true :=
      fun c hc => List.mem_rtakeWhile_imp hc
    have hcut := trimEnd_append_rtakeWhile list
    have htrim : trim (trimEnd list) = trim list := by
      rw [← (trim_append_of_isBlank hend (trimEnd list)).2, hcut]
    have hitems : Statement.items (trimEnd list) = Statement.items list := by
      rw [← Statement.items_append_of_isBlank hend (trimEnd list), hcut]
    have hjoined := Statement.items_append_flatMap hblanks (htrim ▸ hlist) hclauses hparts
    rw [join, if_neg (by simpa using hn), Statement.items_concat (by decide), ← hitems, ← hjoined]

/-- The list keeps its items, and those of the clauses follow, if a comma would part the list up to
its last blanks from the clauses, and these from each other. A clause of a single item is that item.
No clause is blank. -/
theorem items_addConstraints {clauses : List Text}
    (hlast : IsLastParenthesis (front ++ '(' :: list) tail) (hlist : trim list ≠ [])
    (hclauses : as.filterMap (fun a => Clause.constraint? a.definition) = clauses)
    (hparts : (trimEnd list :: clauses).Pairwise Statement.Parts) :
    ∃ joined, (addConstraints (front ++ '(' :: (list ++ ')' :: tail)) as).1 =
        front ++ '(' :: (joined ++ ')' :: tail) ∧
      Statement.items joined = Statement.items list ++ clauses.flatMap Statement.items ∧
      ∀ clause ∈ clauses, trim clause ≠ [] ∧
        ((Statement.items clause).length = 1 → Statement.items clause = [trim clause]) := by
  have hblank : ∀ clause ∈ clauses, trim clause ≠ [] := by
    intro clause hclause
    rw [← hclauses] at hclause
    obtain ⟨a, -, ha⟩ := List.mem_filterMap.mp hclause
    exact trim_ne_nil_of_constraint? ha
  obtain ⟨indent, hindent, hadded⟩ := fst_addConstraints_of_isLast hlast as
  rw [hclauses] at hadded
  refine ⟨_, hadded, ?_, fun clause hclause => ⟨hblank clause hclause, ?_⟩⟩
  · exact items_join hindent hlist hblank hparts
  · exact Statement.items_eq_singleton

/-- Commas in a type, a comment and a string part no items. -/
theorem items_addConstraints_commas :
    let front := "CREATE TABLE t ".toList
    let list := "\n  a numeric(10,2), -- b,\n  c text DEFAULT ','\n".toList
    let constraint (name check : String) : Attachable :=
      { kind := .constraint
        schema := "public".toList
        table := "t".toList
        name := some name.toList
        definition := ("ALTER TABLE t ADD CONSTRAINT " ++ name ++ " CHECK " ++ check).toList }
    let as := [constraint "d" "(a > 0);", constraint "e" "(c <> '),') -- odd\n;"]
    let clauses := ["CONSTRAINT d CHECK (a > 0)".toList,
      "CONSTRAINT e CHECK (c <> '),') -- odd\n".toList]
    IsLastParenthesis (front ++ '(' :: list) [';'] ∧ trim list ≠ [] ∧
      as.filterMap (fun a => Clause.constraint? a.definition) = clauses ∧
      (trimEnd list :: clauses).Pairwise Statement.Parts ∧
      ∃ joined, (addConstraints (front ++ '(' :: (list ++ ')' :: [';'])) as).1 =
          front ++ '(' :: (joined ++ ')' :: [';']) ∧
        Statement.items joined = Statement.items list ++ clauses.flatMap Statement.items ∧
        ∀ clause ∈ clauses, trim clause ≠ [] ∧
          ((Statement.items clause).length = 1 → Statement.items clause = [trim clause]) := by
  intro front list constraint as clauses
  have hlast : IsLastParenthesis (front ++ '(' :: list) [';'] :=
    Or.inl ⟨[], [], rfl, by decide, by decide⟩
  have hlist : trim list ≠ [] := by decide +kernel
  have hclauses : as.filterMap (fun a => Clause.constraint? a.definition) = clauses := by
    decide +kernel
  have hparts : (trimEnd list :: clauses).Pairwise Statement.Parts := by
    decide +kernel
  exact ⟨hlast, hlist, hclauses, hparts, items_addConstraints hlast hlist hclauses hparts⟩

/-- A constraint of `t`. -/
def constraintOfT (check : String) : Attachable :=
  { kind := .constraint
    schema := "public".toList
    table := "t".toList
    name := some "c".toList
    definition := ("ALTER TABLE t ADD CONSTRAINT c " ++ check ++ ";").toList }

/-- With the constraint, the list of the table becomes another, and its items are not the old ones
and the clause behind them. -/
def AddsNoItem (list check joined : String) (olds news : List String) : Prop :=
  let front := "CREATE TABLE t ".toList
  let clause := ("CONSTRAINT c " ++ check).toList
  IsLastParenthesis (front ++ '(' :: list.toList) [';'] ∧
    Clause.constraint? (constraintOfT check).definition = some clause ∧
    Statement.Balanced (Statement.Token.ofText clause) ∧
    (addConstraints (front ++ '(' :: (list.toList ++ ')' :: [';'])) [constraintOfT check]).1 =
      front ++ '(' :: (joined.toList ++ ')' :: [';']) ∧
    Statement.items list.toList = olds.map String.toList ∧
    Statement.items joined.toList = news.map String.toList ∧
    Statement.items joined.toList ≠ Statement.items list.toList ++ [trim clause]

/-- A comment at the end of the list takes the comma, and so does a dollar quotation that a tag in the
list and one in a clause make. In a blank list the comma has nothing before it, and a clause with a
comma of its own is two items. -/
theorem constraint_is_no_item :
    AddsNoItem "a int -- note\n" "CHECK (a > 0)" "a int -- note,\nCONSTRAINT c CHECK (a > 0)\n"
        ["a int -- note"] ["a int -- note,\nCONSTRAINT c CHECK (a > 0)"] ∧
      AddsNoItem "a text DEFAULT $x$" "CHECK (a <> $x$b$x$)"
        "a text DEFAULT $x$,\nCONSTRAINT c CHECK (a <> $x$b$x$)\n" ["a text DEFAULT $x$"]
        ["a text DEFAULT $x$,\nCONSTRAINT c CHECK (a <> $x$b$x$)"] ∧
      AddsNoItem "\n" "CHECK (a > 0)" ",\nCONSTRAINT c CHECK (a > 0)\n" []
        ["", "CONSTRAINT c CHECK (a > 0)"] ∧
      AddsNoItem "a int" "CHECK (a > 0), ADD CONSTRAINT d CHECK (a < 9)"
        "a int,\nCONSTRAINT c CHECK (a > 0), ADD CONSTRAINT d CHECK (a < 9)\n" ["a int"]
        ["a int", "CONSTRAINT c CHECK (a > 0)", "ADD CONSTRAINT d CHECK (a < 9)"] := by
  refine ⟨⟨?_, ?_⟩, ⟨?_, ?_⟩, ⟨?_, ?_⟩, ⟨?_, ?_⟩⟩
  · exact Or.inl ⟨[], [], rfl, by decide, by decide⟩
  · decide +kernel
  · exact Or.inl ⟨[], [], rfl, by decide, by decide⟩
  · decide +kernel
  · exact Or.inl ⟨[], [], rfl, by decide, by decide⟩
  · decide +kernel
  · exact Or.inl ⟨[], [], rfl, by decide, by decide⟩
  · decide +kernel

end SchemaDump.Attachment
