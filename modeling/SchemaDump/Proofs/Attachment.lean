import SchemaDump.Attachment
import SchemaDump.Proofs.Blanks
import SchemaDump.Proofs.Columns
import Mathlib.Algebra.GroupWithZero.Nat
import Mathlib.Data.List.Forall2

/-! What attachment does to a definition. Identity clauses are put in one after another, constraint
clauses before one closing parenthesis, where they take the place of blanks, and indexes behind it
all. So nothing is lost but those blanks. -/
namespace SchemaDump

open Text

namespace Indent

/-- An indent is made of spaces or of tabs. -/
theorem isBlank_of_mem_detect {c : Char} {s : Text} (h : c ∈ detect s) : isBlank c = true := by
  have hi : isIndent c = true := by
    rw [detect] at h
    split at h
    · next run hr =>
      have hm : run ∈ runs s := List.mem_eraseDups.mp (List.mem_of_find?_eq_some hr)
      obtain ⟨line, -, rfl⟩ := List.mem_map.mp (List.mem_filter.mp hm).1
      exact List.mem_takeWhile_imp h
    · split at h <;> simp [(List.mem_replicate.mp h).2, isIndent]
  rcases (by simpa [isIndent] using hi : c = ' ' ∨ c = '\t') with rfl | rfl <;> rfl

end Indent

namespace Object

/-- The statements of one kind that belong to the object, in their order. -/
def statements (o : Object) (as : List Attachable) (kind : Kind) : List Attachable :=
  as.filter fun a => o.kind.isOwner && a.key = o.key && a.kind = kind

end Object

namespace Attachment

variable {front back s t definition inside closing : Text} {as : List Attachable}
  {clauses identities : List Text} {o : Object}

theorem ofKind_of (as : List Attachable) (key : Text) (kind : Kind) :
    Group.ofKind kind (((Group.keyed as).filter fun p => p.1 = key).map Prod.snd) =
      as.filter fun a => a.key = key && a.kind = kind := by
  simp [Group.ofKind, Group.keyed, List.filter_map, Function.comp_def, Bool.and_comm]

/-- The group of an owner's name holds the statements that belong to each object of that name. -/
theorem of_key (ho : o.kind.isOwner = true) (as : List Attachable) :
    Group.of (Group.keyed as) o.key =
      { key := o.key
        sequences := o.statements as .sequence
        constraints := o.statements as .constraint
        indexes := o.statements as .index } := by
  simp [Group.of, ofKind_of, Object.statements, ho]

/-- Between `front` and `back`, the sequences' identity clauses are put in one after another, but
for those whose column or clause is not found when their turn comes. -/
inductive Places (front back : Text) : Text → List Attachable → List Text → Text → Prop
  | nil {s : Text} : Places front back s [] [] s
  | skipped {s t : Text} {a : Attachable} {as : List Attachable} {identities : List Text} :
      Column.find? (front ++ s ++ back) (a.column.getD []) = none ∨
        Clause.identity? a.definition = none →
      Places front back s as identities t → Places front back s (a :: as) identities t
  | placed {l r t clause : Text} {a : Attachable} {as : List Attachable}
      {identities : List Text} :
      (Column.find? (front ++ (l ++ r) ++ back) (a.column.getD [])).isSome →
      Clause.identity? a.definition = some clause →
      Places front back (l ++ ' ' :: clause ++ r) as identities t →
      Places front back (l ++ r) (a :: as) (clause :: identities) t

/-- Clauses joined to a list, each behind a comma and on a line of its own, in place of the blanks
at the list's end. -/
inductive Joins : Text → List Text → Text → Prop
  | nil {s : Text} : Joins s [] s
  | joined {list blanks indent : Text} {clauses : List Text} : clauses ≠ [] →
      (∀ c ∈ blanks, isBlank c) → (∀ c ∈ indent, isBlank c) →
      Joins (list ++ blanks) clauses
        (list ++ clauses.flatMap (fun clause => ',' :: '\n' :: indent ++ clause) ++ ['\n'])

/-- The clauses that constraints add to a definition: those recognised, if there is a place. -/
def joinedClauses (definition : Text) (as : List Attachable) : List Text :=
  if (closingParenthesis? definition).isSome then
    as.filterMap fun a => Clause.constraint? a.definition
  else []

/-- What indexes add to a definition. -/
def indexLines (as : List Attachable) : Text :=
  if as.isEmpty then [] else '\n' :: '\n' :: ['\n'].intercalate (as.map Attachable.definition)

/-- Each sequence in turn, under a condition that allows a clause only between `front` and `back`
and that clauses keep. -/
theorem exists_places (front back : Text) (as : List Attachable) {P : Text → Prop}
    (hfind : ∀ s name column, P s → Column.find? (front ++ s ++ back) name = some column →
      ∃ l r, s = l ++ r ∧
        ∀ clause, column.insert clause = front ++ (l ++ ' ' :: clause ++ r) ++ back)
    (hkeep : ∀ a ∈ as, ∀ clause, Clause.identity? a.definition = some clause →
      ∀ l r, P (l ++ r) → P (l ++ ' ' :: clause ++ r))
    (hs : P s) :
    ∃ identities t, Places front back s as identities t ∧
      (addSequences (front ++ s ++ back) as).1 = front ++ t ++ back ∧ P t := by
  induction as generalizing s with
  | nil => exact ⟨[], s, .nil, rfl, hs⟩
  | cons a as ih =>
    have hkeep' := fun b hb => hkeep b (List.mem_cons_of_mem a hb)
    rw [addSequences, addSequence]
    cases hc : Column.find? (front ++ s ++ back) (a.column.getD []) with
    | none =>
      obtain ⟨identities, t, hp, ha, ht⟩ := ih hkeep' hs
      exact ⟨identities, t, .skipped (Or.inl hc) hp, ha, ht⟩
    | some column =>
      cases hi : Clause.identity? a.definition with
      | none =>
        obtain ⟨identities, t, hp, ha, ht⟩ := ih hkeep' hs
        exact ⟨identities, t, .skipped (Or.inr hi) hp, ha, ht⟩
      | some clause =>
        obtain ⟨l, r, rfl, hinsert⟩ := hfind s _ column hs hc
        have hs' := hkeep a List.mem_cons_self clause hi l r hs
        obtain ⟨identities, t, hp, ha, ht⟩ := ih hkeep' hs'
        refine ⟨clause :: identities, t, .placed (by rw [hc]; rfl) hi hp, ?_, ht⟩
        rw [← ha, ← hinsert]

theorem fst_constraintClauses (as : List Attachable) :
    (constraintClauses as).1 = as.filterMap fun a => Clause.constraint? a.definition := by
  induction as with
  | nil => rfl
  | cons a as ih =>
    rw [constraintClauses]
    cases hc : Clause.constraint? a.definition <;> simp [hc, ih]

/-- The list with the clauses behind it. -/
def join (indent list : Text) (clauses : List Text) : Text :=
  if clauses.isEmpty then list
  else trimEnd list ++ clauses.flatMap (fun clause => ',' :: '\n' :: indent ++ clause) ++ ['\n']

theorem joins_join {indent : Text} (hi : ∀ c ∈ indent, isBlank c) (list : Text)
    (clauses : List Text) : Joins list clauses (join indent list clauses) := by
  by_cases hn : clauses = []
  · subst hn
    exact .nil
  · have hj : Joins (trimEnd list ++ list.rtakeWhile isBlank) clauses _ :=
      .joined hn (fun c hc => List.mem_rtakeWhile_imp hc) hi
    rw [trimEnd_append_rtakeWhile] at hj
    simpa [join, hn] using hj

/-- What stands before the last character that is not blank has no part in the joining. -/
theorem join_append {c : Char} (hc : isBlank c = false) (indent front list : Text)
    (clauses : List Text) :
    join indent (front ++ c :: list) clauses = front ++ c :: join indent list clauses := by
  by_cases hn : clauses = []
  · simp [join, hn]
  · simp [join, hn, trimEnd_append_of_not_isBlank hc]

theorem fst_addConstraints (h : closingParenthesis? definition = some (inside, closing))
    (as : List Attachable) :
    (addConstraints definition as).1 =
      join (Indent.detect definition) inside (joinedClauses definition as) ++ closing := by
  obtain ⟨tail, -, hd, -⟩ := closingParenthesis?_eq_some h
  have hj : joinedClauses definition as =
      as.filterMap fun a => Clause.constraint? a.definition := by
    simp [joinedClauses, h]
  rw [hj, ← fst_constraintClauses, addConstraints, h, join]
  by_cases hn : (constraintClauses as).1 = []
  · simp [hn, hd]
  · simp [hn]

/-- Constraints join the list that ends with the last parenthesis. -/
theorem fst_addConstraints_of_isLast {list tail : Text}
    (hlast : IsLastParenthesis (front ++ '(' :: list) tail) (as : List Attachable) :
    ∃ indent, (∀ c ∈ indent, isBlank c = true) ∧
      (addConstraints (front ++ '(' :: (list ++ ')' :: tail)) as).1 =
        front ++ '(' :: (join indent list
          (as.filterMap fun a => Clause.constraint? a.definition) ++ ')' :: tail) := by
  have hclosing := closingParenthesis?_append hlast
  have hadded := fst_addConstraints hclosing as
  rw [joinedClauses, hclosing, Option.isSome_some, if_pos rfl, join_append (by decide)] at hadded
  exact ⟨_, fun c hc => Indent.isBlank_of_mem_detect hc, by simpa using hadded⟩

/-- How many characters of a text are not blank. -/
def weight (s : Text) : Nat := (withoutBlanks s).length

theorem weight_append (s t : Text) : weight (s ++ t) = weight s + weight t := by
  simp [weight]

theorem weight_of_blank (h : ∀ c ∈ s, isBlank c) : weight s = 0 := by
  rw [weight, withoutBlanks_eq_nil_iff.mpr h, List.length_nil]

theorem weight_flatten (ts : List Text) : weight ts.flatten = (ts.map weight).sum := by
  induction ts with
  | nil => rfl
  | cons t ts ih => rw [List.flatten_cons, weight_append, ih, List.map_cons, List.sum_cons]

/-- Identity clauses are all that is added, blanks apart. -/
theorem Places.withoutBlanks (h : Places front back s as identities t) :
    List.Sublist (Text.withoutBlanks s) (Text.withoutBlanks t) ∧
      weight t = weight s + (identities.map weight).sum := by
  induction h with
  | nil => exact ⟨List.Sublist.refl _, rfl⟩
  | skipped _ _ ih => exact ih
  | @placed l r t clause a as identities _ _ _ ih =>
    obtain ⟨hs, hw⟩ := ih
    have hspace : ' ' :: clause = [' '] ++ clause := rfl
    constructor
    · refine List.Sublist.trans ?_ hs
      rw [List.append_assoc, withoutBlanks_append, withoutBlanks_append, withoutBlanks_append]
      exact (List.Sublist.refl _).append (List.sublist_append_right _ _)
    · have h₁ : weight [' '] = 0 := rfl
      rw [hw, hspace, List.map_cons, List.sum_cons, weight_append, weight_append, weight_append,
        weight_append, h₁]
      omega

theorem weight_joined {indent : Text} (hi : ∀ c ∈ indent, isBlank c) (clauses : List Text) :
    weight (clauses.flatMap fun clause => ',' :: '\n' :: indent ++ clause) =
      (clauses.map fun clause => 1 + weight clause).sum := by
  induction clauses with
  | nil => rfl
  | cons clause clauses ih =>
    have hc : ',' :: '\n' :: indent ++ clause = [',', '\n'] ++ (indent ++ clause) := rfl
    have h₁ : weight [',', '\n'] = 1 := rfl
    rw [List.flatMap_cons, weight_append, ih, hc, weight_append, weight_append, h₁,
      weight_of_blank hi, Nat.zero_add, List.map_cons, List.sum_cons]

/-- A comma and a clause are added for each, and only blanks are lost. -/
theorem Joins.withoutBlanks (h : Joins s clauses t) :
    List.Sublist (Text.withoutBlanks s) (Text.withoutBlanks t) ∧
      weight t = weight s + (clauses.map fun clause => 1 + weight clause).sum := by
  cases h with
  | nil => exact ⟨List.Sublist.refl _, rfl⟩
  | @joined list blanks indent _ _ hb hi =>
    constructor
    · rw [withoutBlanks_append, withoutBlanks_eq_nil_iff.mpr hb, List.append_nil,
        List.append_assoc, withoutBlanks_append]
      exact List.sublist_append_left _ _
    · have h₁ : weight ['\n'] = 0 := rfl
      rw [weight_append, weight_append, weight_append, weight_joined hi, weight_of_blank hb, h₁]
      rfl

theorem weight_indexLines (as : List Attachable) :
    weight (indexLines as) = (as.map fun a => weight a.definition).sum := by
  rw [indexLines]
  by_cases hn : as = []
  · simp [hn, weight]
  · have hb : ∀ c ∈ ['\n'], isBlank c := by simp [isBlank]
    have hlines : '\n' :: '\n' :: ['\n'].intercalate (as.map Attachable.definition) =
        ['\n', '\n'] ++ ['\n'].intercalate (as.map Attachable.definition) := rfl
    have h₁ : weight ['\n', '\n'] = 0 := rfl
    have h₂ : weight (['\n'].intercalate (as.map Attachable.definition)) =
        weight (as.map Attachable.definition).flatten := by
      rw [weight, withoutBlanks_intercalate hb, weight]
    rw [if_neg (by simpa using hn), hlines, weight_append, h₁, h₂, weight_flatten, List.map_map,
      Nat.zero_add]
    rfl

theorem statements_of_not_isOwner (ho : o.kind.isOwner = false) (as : List Attachable)
    (kind : Kind) : o.statements as kind = [] := by
  simp [Object.statements, ho]

theorem addConstraints_nil (definition : Text) : (addConstraints definition []).1 = definition := by
  cases h : closingParenthesis? definition with
  | none => simp [addConstraints, h]
  | some cut => simp [addConstraints, h, constraintClauses]

/-- The definition an object has in the end, made in three steps. -/
theorem definition_attachOne (as : List Attachable) (o : Object) :
    (attachOne (Group.keyed as) o).1.definition =
      (addConstraints (addSequences o.definition (o.statements as .sequence)).1
        (o.statements as .constraint)).1 ++ indexLines (o.statements as .index) := by
  rw [attachOne]
  cases ho : o.kind.isOwner with
  | false => simp [statements_of_not_isOwner ho, addSequences, addConstraints_nil, indexLines]
  | true =>
    simp only [if_true, of_key ho, receive]
    generalize o.statements as .sequence = sequences
    generalize o.statements as .constraint = constraints
    generalize o.statements as .index = indexes
    cases constraints <;> cases indexes <;>
      simp [addConstraints_nil, indexLines, addIndexes]

theorem exists_insert {name : Text} {column : Column} (h : Column.find? s name = some column) :
    ∃ l r, s = l ++ r ∧ ∀ clause, column.insert clause = l ++ ' ' :: clause ++ r := by
  obtain ⟨-, -, -, left, right, -, -, hs, -, -, hinsert⟩ := Column.exists_insert_of_find? h
  exact ⟨left, right, hs, hinsert⟩

/-- Sequences put their clauses in wherever their columns are. -/
theorem exists_places_addSequences (definition : Text) (as : List Attachable) :
    ∃ identities, Places [] [] definition as identities (addSequences definition as).1 := by
  obtain ⟨identities, t, hp, ha, -⟩ :=
    exists_places [] [] as (P := fun _ => True) (s := definition)
      (by simpa using fun s name column h => exists_insert h) (by simp) trivial
  simp only [List.nil_append, List.append_nil] at ha
  exact ⟨identities, ha ▸ hp⟩

/-- Constraints join what stands before the closing parenthesis, if there is one. -/
theorem exists_joins_addConstraints (definition : Text) (as : List Attachable) :
    ∃ inside closing joined, definition = inside ++ closing ∧
      (closing.head? = some ')' ∨ joinedClauses definition as = []) ∧
      Joins inside (joinedClauses definition as) joined ∧
      (addConstraints definition as).1 = joined ++ closing := by
  cases h : closingParenthesis? definition with
  | none =>
    have hj : joinedClauses definition as = [] := by simp [joinedClauses, h]
    refine ⟨definition, [], definition, by simp, Or.inr hj, ?_, by simp [addConstraints, h]⟩
    rw [hj]
    exact .nil
  | some cut =>
    obtain ⟨inside, closing⟩ := cut
    obtain ⟨tail, rfl, hd, -⟩ := closingParenthesis?_eq_some h
    have hindent : ∀ c ∈ Indent.detect definition, isBlank c :=
      fun c hc => Indent.isBlank_of_mem_detect hc
    exact ⟨inside, _, _, hd, Or.inl rfl, joins_join hindent _ _, fst_addConstraints h as⟩

/-- From `o` to `o'` the definition gets identity clauses, constraint clauses and at its end
indexes, all of statements among `as` that belong to the object. Of what is not blank nothing else is
added, and nothing is taken away. -/
def Adds (as : List Attachable) (o o' : Object) : Prop :=
  ∃ identities withIdentities inside closing clauses joined,
    Places [] [] o.definition (o.statements as .sequence) identities withIdentities ∧
    withIdentities = inside ++ closing ∧ (closing.head? = some ')' ∨ clauses = []) ∧
    clauses = joinedClauses withIdentities (o.statements as .constraint) ∧
    Joins inside clauses joined ∧
    o'.definition = joined ++ closing ++ indexLines (o.statements as .index) ∧
    List.Sublist (withoutBlanks o.definition) (withoutBlanks o'.definition) ∧
    weight o'.definition = weight o.definition + (identities.map weight).sum +
      (clauses.map fun clause => 1 + weight clause).sum +
      ((o.statements as .index).map fun a => weight a.definition).sum

theorem adds_attachOne (as : List Attachable) (o : Object) :
    Adds as o (attachOne (Group.keyed as) o).1 := by
  obtain ⟨identities, hp⟩ := exists_places_addSequences o.definition (o.statements as .sequence)
  have hd := definition_attachOne as o
  generalize (addSequences o.definition (o.statements as .sequence)).1 = withIdentities at hp hd
  obtain ⟨inside, closing, joined, hi, hc, hj, ha⟩ :=
    exists_joins_addConstraints withIdentities (o.statements as .constraint)
  rw [ha] at hd
  obtain ⟨hps, hpw⟩ := hp.withoutBlanks
  obtain ⟨hjs, hjw⟩ := hj.withoutBlanks
  refine ⟨identities, withIdentities, inside, closing, _, joined, hp, hi, hc, rfl, hj, hd, ?_, ?_⟩
  · rw [hd, withoutBlanks_append, withoutBlanks_append]
    refine (hps.trans ?_).trans (List.sublist_append_left _ _)
    rw [hi, withoutBlanks_append]
    exact hjs.append (List.Sublist.refl _)
  · rw [hd, weight_append, weight_append, hjw, weight_indexLines, ← hpw, hi, weight_append]
    omega

/-- Attachment only adds to definitions, blanks before one closing parenthesis apart. -/
theorem attach_adds (os : List Object) (as : List Attachable) :
    List.Forall₂ (Adds as) os (attach os as).1 := by
  rw [attach, List.map_map, List.forall₂_map_right_iff, List.forall₂_same]
  intro o _
  exact adds_attachOne as o

end Attachment
end SchemaDump
