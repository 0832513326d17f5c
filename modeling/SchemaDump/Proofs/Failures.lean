import SchemaDump.Proofs.Attachment

/-! Statements that fail to be attached. What a statement of each kind does to a definition hangs on
the definition it finds at its turn, and a failing one leaves that as it is. So a definition comes
out the same if failing statements are never there. -/
namespace SchemaDump.Attachment

variable {os : List Object} {as bs before : List Attachable} {a : Attachable} {o : Object}
  {s : Text} {kind : Kind}

/-- The definition after one sequence has had its turn. -/
def place (s : Text) (a : Attachable) : Text :=
  match addSequence s a with
  | .ok placed => placed
  | .error _ => s

theorem place_of_not_found
    (h : Column.find? s (a.column.getD []) = none ∨ Clause.identity? a.definition = none) :
    place s a = s := by
  rw [place, addSequence]
  rcases h with h | h
  · rw [h]
  · rw [h]
    cases Column.find? s (a.column.getD []) <;> rfl

theorem fst_addSequences (s : Text) (as : List Attachable) :
    (addSequences s as).1 = as.foldl place s := by
  induction as generalizing s with
  | nil => rfl
  | cons a as ih =>
    rw [List.foldl_cons, ← ih, place, addSequences]
    cases addSequence s a <;> rfl

/-- The definition of `o` when those of its sequences that are among `before` have had their turn. -/
def atTurn (o : Object) (before : List Attachable) : Text :=
  (addSequences o.definition (o.statements before .sequence)).1

theorem statements_append (o : Object) (as bs : List Attachable) (kind : Kind) :
    o.statements (as ++ bs) kind = o.statements as kind ++ o.statements bs kind :=
  List.filter_append ..

theorem atTurn_append (o : Object) (as bs : List Attachable) :
    atTurn o (as ++ bs) = (o.statements bs .sequence).foldl place (atTurn o as) := by
  rw [atTurn, atTurn, fst_addSequences, fst_addSequences, statements_append, List.foldl_append]

theorem statements_singleton (o : Object) (a : Attachable) (kind : Kind) :
    o.statements [a] kind =
      if o.kind.isOwner = true ∧ a.key = o.key ∧ a.kind = kind then [a] else [] := by
  simp [Object.statements, List.filter_cons, and_assoc]

/-- The statement `a` fails behind `before`: it is a constraint without a clause, or a sequence
without one or whose column is not found at its turn, whichever table or view of its name it is
tried on. -/
def Fails (os : List Object) (before : List Attachable) (a : Attachable) : Prop :=
  (a.kind = .constraint ∧ Clause.constraint? a.definition = none) ∨
    (a.kind = .sequence ∧ ∀ o ∈ os, o.kind.isOwner = true → a.key = o.key →
      Column.find? (atTurn o before) (a.column.getD []) = none ∨
        Clause.identity? a.definition = none)

instance (os : List Object) (before : List Attachable) (a : Attachable) :
    Decidable (Fails os before a) :=
  inferInstanceAs (Decidable (_ ∨ _))

/-- The statements less those for which `p` holds of all that stands before them. -/
def leaveOut (p : List Attachable → Attachable → Bool) (before : List Attachable) :
    List Attachable → List Attachable
  | [] => []
  | a :: as =>
    if p before a then leaveOut p (before ++ [a]) as else a :: leaveOut p (before ++ [a]) as

/-- The statements that do not fail at their turn. -/
def succeeding (os : List Object) (as : List Attachable) : List Attachable :=
  leaveOut (fun before a => Fails os before a) [] as

/-- A failing statement makes no difference to the definitions that come after it. -/
theorem Fails.atTurn_concat (h : Fails os before a) (ho : o ∈ os) :
    atTurn o (before ++ [a]) = atTurn o before := by
  rw [atTurn_append, statements_singleton]
  split
  · next hown =>
    obtain ⟨howner, hkey, hsequence⟩ := hown
    rcases h with ⟨hconstraint, -⟩ | ⟨-, h⟩
    · rw [hsequence] at hconstraint
      cases hconstraint
    · exact place_of_not_found (h o ho howner hkey)
  · rfl

variable {p : List Attachable → Attachable → Bool}

/-- Sequences find the definition as it would be without the failing statements before them. -/
theorem atTurn_leaveOut (hp : ∀ before a, p before a = true → Fails os before a) (ho : o ∈ os)
    (before as : List Attachable) :
    atTurn o (before ++ leaveOut p before as) = atTurn o (before ++ as) := by
  induction as generalizing before with
  | nil => rfl
  | cons a as ih =>
    have hrest := ih (before ++ [a])
    have hcons : before ++ a :: as = before ++ [a] ++ as := by simp
    rw [leaveOut, hcons, ← hrest]
    split
    · next ha =>
      have hturn := (hp before a ha).atTurn_concat ho
      rw [atTurn_append, atTurn_append o (before ++ [a]), hturn]
    · simp

/-- What is taken from the statements of an object is taken from those that are left, if the others
give nothing. -/
theorem filterMap_statements_leaveOut {β : Type} {f : Attachable → Option β}
    (hf : ∀ before a, p before a = true → a.kind = kind → f a = none) (o : Object)
    (before as : List Attachable) :
    (o.statements (leaveOut p before as) kind).filterMap f =
      (o.statements as kind).filterMap f := by
  induction as generalizing before with
  | nil => rfl
  | cons a as ih =>
    have hcons (bs : List Attachable) : (o.statements (a :: bs) kind).filterMap f =
        (o.statements [a] kind).filterMap f ++ (o.statements bs kind).filterMap f := by
      rw [← List.filterMap_append, ← statements_append]
      rfl
    rw [leaveOut, hcons as, ← ih (before ++ [a])]
    split
    · next ha =>
      have hnone : (o.statements [a] kind).filterMap f = [] := by
        rw [statements_singleton]
        split
        · next hown => simp [hf before a ha hown.2.2]
        · rfl
      rw [hnone, List.nil_append]
    · exact hcons _

theorem Fails.kind_ne_index (h : Fails os before a) : a.kind ≠ .index := by
  rcases h with ⟨hkind, -⟩ | ⟨hkind, -⟩ <;> simp [hkind]

theorem Fails.constraint?_eq_none (h : Fails os before a) (hkind : a.kind = .constraint) :
    Clause.constraint? a.definition = none := by
  rcases h with ⟨-, hnone⟩ | ⟨hsequence, -⟩
  · exact hnone
  · rw [hsequence] at hkind
    cases hkind

/-- Constraints add the clauses that are recognised, and nothing else of them matters. -/
theorem fst_addConstraints_congr
    (h : as.filterMap (fun a => Clause.constraint? a.definition) =
      bs.filterMap fun a => Clause.constraint? a.definition) (s : Text) :
    (addConstraints s as).1 = (addConstraints s bs).1 := by
  cases hcut : closingParenthesis? s with
  | none => simp [addConstraints, hcut]
  | some cut =>
    obtain ⟨inside, closing⟩ := cut
    rw [fst_addConstraints hcut, fst_addConstraints hcut]
    simp only [joinedClauses, h]

/-- Statements of a kind are kept where those of another kind are left out. -/
theorem statements_filter_ne {other : Kind} (h : kind ≠ other) (o : Object)
    (as : List Attachable) :
    o.statements (as.filter fun a => a.kind ≠ other) kind = o.statements as kind := by
  rw [Object.statements, Object.statements, List.filter_filter]
  refine List.filter_congr fun a _ => ?_
  by_cases ha : a.kind = kind
  · simp [ha, h]
  · simp [ha]

theorem statements_filter_self (o : Object) (as : List Attachable) (kind : Kind) :
    o.statements (as.filter fun a => a.kind ≠ kind) kind = [] := by
  rw [Object.statements, List.filter_filter, List.filter_eq_nil_iff]
  intro a _ ha
  simp only [Bool.and_eq_true, decide_eq_true_eq] at ha
  exact ha.2 ha.1.2

theorem fst_addConstraints_of_none (h : closingParenthesis? s = none) (as : List Attachable) :
    (addConstraints s as).1 = s := by
  simp [addConstraints, h]

theorem definition_attachOne_eq (as : List Attachable) (o : Object) :
    (attachOne (Group.keyed as) o).1.definition =
      (addConstraints (atTurn o as) (o.statements as .constraint)).1 ++
        indexLines (o.statements as .index) :=
  definition_attachOne as o

/-- Leaving out failing statements leaves the definition of each object as it is. -/
theorem definition_leaveOut (hp : ∀ before a, p before a = true → Fails os before a) (ho : o ∈ os)
    (as : List Attachable) :
    (attachOne (Group.keyed (leaveOut p [] as)) o).1.definition =
      (attachOne (Group.keyed as) o).1.definition := by
  have hsequences : atTurn o (leaveOut p [] as) = atTurn o as := atTurn_leaveOut hp ho [] as
  have hconstraints : (o.statements (leaveOut p [] as) .constraint).filterMap
        (fun a => Clause.constraint? a.definition) =
      (o.statements as .constraint).filterMap fun a => Clause.constraint? a.definition :=
    filterMap_statements_leaveOut
      (fun before a ha hkind => (hp before a ha).constraint?_eq_none hkind) o [] as
  have hindexes : (o.statements (leaveOut p [] as) .index).filterMap some =
      (o.statements as .index).filterMap some :=
    filterMap_statements_leaveOut
      (fun before a ha hkind => ((hp before a ha).kind_ne_index hkind).elim) o [] as
  rw [List.filterMap_some, List.filterMap_some] at hindexes
  rw [definition_attachOne_eq, definition_attachOne_eq, hsequences, hindexes,
    fst_addConstraints_congr hconstraints]

/-- The definitions come out as they would without the statements that fail at their turn. Where
there is no closing parenthesis at the constraints' turn, a definition comes out as it would without
any constraints: with the clauses of its sequences, and its indexes behind them. -/
theorem attach_succeeding (os : List Object) (as : List Attachable) :
    (attach os (succeeding os as)).1.map Object.definition =
        (attach os as).1.map Object.definition ∧
      ∀ (i : Nat) (o : Object), os[i]? = some o → closingParenthesis? (atTurn o as) = none →
        ∃ o', (attach os as).1[i]? = some o' ∧
          o'.definition = atTurn o as ++ indexLines (o.statements as .index) ∧
          (attach os (as.filter fun a => a.kind ≠ .constraint)).1[i]?.map Object.definition =
            some o'.definition := by
  have hfails : ∀ before a, decide (Fails os before a) = true → Fails os before a :=
    fun before a => of_decide_eq_true
  constructor
  · simp only [attach, List.map_map]
    refine List.map_congr_left fun o ho => ?_
    exact definition_leaveOut hfails ho as
  · intro i o hi hclosing
    have hget (bs : List Attachable) :
        (attach os bs).1[i]? = some (attachOne (Group.keyed bs) o).1 := by
      simp [attach, hi]
    have hdefinition := definition_attachOne_eq as o
    rw [fst_addConstraints_of_none hclosing] at hdefinition
    refine ⟨_, hget as, hdefinition, ?_⟩
    have hturn : atTurn o (as.filter fun a => a.kind ≠ .constraint) = atTurn o as := by
      rw [atTurn, statements_filter_ne (by decide), atTurn]
    rw [hget, Option.map_some, definition_attachOne_eq, hturn, statements_filter_self,
      statements_filter_ne (by decide), addConstraints_nil, hdefinition]

theorem attach_succeeding_no_closing_parenthesis :
    let o : Object :=
      { kind := .table
        schema := "public".toList
        name := "t".toList
        definition := "CREATE TABLE t (a int)".toList }
    let statement (kind : Kind) (column : Option Text) (definition : String) : Attachable :=
      { kind := kind
        schema := "public".toList
        table := "t".toList
        name := some "n".toList
        definition := definition.toList
        column := column }
    let bad := statement .constraint none "ALTER TABLE t ADD CONSTRAINT c;"
    let missing := statement .sequence (some "b".toList)
      "ALTER TABLE t ALTER b ADD GENERATED ALWAYS AS IDENTITY (SEQUENCE NAME r);"
    let index := statement .index none "CREATE INDEX n ON t (a);"
    let identity := statement .sequence (some "a".toList)
      "ALTER TABLE t ALTER a ADD GENERATED ALWAYS AS IDENTITY (SEQUENCE NAME \"s;\");"
    let check := statement .constraint none "ALTER TABLE t ADD CONSTRAINT c CHECK (a > 0);"
    let as := [bad, missing, index, identity, check, { identity with column := none }]
    succeeding [o] as = [index, identity, check] ∧
      (attach [o] (succeeding [o] as)).1.map Object.definition =
        (attach [o] as).1.map Object.definition ∧
      [o][0]? = some o ∧ closingParenthesis? (atTurn o as) = none ∧
      ∃ o', (attach [o] as).1[0]? = some o' ∧
        o'.definition = atTurn o as ++ indexLines (o.statements as .index) ∧
        (attach [o] (as.filter fun a => a.kind ≠ .constraint)).1[0]?.map Object.definition =
          some o'.definition := by
  intro o statement bad missing index identity check as
  have hsucceeding : succeeding [o] as = [index, identity, check] := by decide +kernel
  have hclosing : closingParenthesis? (atTurn o as) = none := by decide +kernel
  obtain ⟨hsame, hnone⟩ := attach_succeeding [o] as
  exact ⟨hsucceeding, hsame, rfl, hclosing, hnone 0 o rfl hclosing⟩

end SchemaDump.Attachment
