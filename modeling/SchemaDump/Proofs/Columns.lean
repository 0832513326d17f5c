import SchemaDump.Column
import SchemaDump.Proofs.Endings
import SchemaDump.Proofs.Statement.Scan

/-! Where a column is found in a table definition: behind the header's opening parenthesis and
before the closing one, with nothing of the definition lost. -/
namespace SchemaDump

open Reading

variable {definition name inside closing tail : Text}

/-- In `inside ++ ')' :: tail` the parenthesis is the last before the last semicolon, or without a
semicolon the last of all. -/
def IsLastParenthesis (inside tail : Text) : Prop :=
  (∃ mid post, tail = mid ++ ';' :: post ∧ ')' ∉ mid ∧ ';' ∉ post) ∨
    (';' ∉ inside ++ tail ∧ ')' ∉ tail)

theorem closingParenthesis?_append (h : IsLastParenthesis inside tail) :
    closingParenthesis? (inside ++ ')' :: tail) = some (inside, ')' :: tail) := by
  obtain ⟨mid, post, rfl, hmid, hpost⟩ | ⟨hsemi, htail⟩ := h
  · have hs : Text.splitLast ';' (inside ++ ')' :: (mid ++ ';' :: post)) =
        some (inside ++ ')' :: mid, ';' :: post) := by
      rw [← List.cons_append, ← List.append_assoc]
      exact Text.splitLast_append hpost
    simp [closingParenthesis?, hs, Text.splitLast_append hmid]
  · have hs : Text.splitLast ';' (inside ++ ')' :: tail) = none := by
      refine Text.splitLast_eq_none_iff.mpr ?_
      simpa using hsemi
    simp [closingParenthesis?, hs, Text.splitLast_append htail]

theorem closingParenthesis?_eq_some (h : closingParenthesis? definition = some (inside, closing)) :
    ∃ tail, closing = ')' :: tail ∧ definition = inside ++ closing ∧
      IsLastParenthesis inside tail := by
  rw [closingParenthesis?] at h
  obtain ⟨⟨front, back⟩, hp, heq⟩ := Option.map_eq_some_iff.mp h
  cases heq
  cases hs : Text.splitLast ';' definition with
  | none =>
    rw [hs] at hp
    obtain ⟨tail, rfl, rfl, htail⟩ := Text.splitLast_eq_some hp
    have hsemi := Text.splitLast_eq_none_iff.mp hs
    exact ⟨tail, by simp, by simp, Or.inr ⟨by simpa using hsemi, htail⟩⟩
  | some cut =>
    obtain ⟨body, rest⟩ := cut
    rw [hs] at hp
    obtain ⟨mid, rfl, rfl, hmid⟩ := Text.splitLast_eq_some hp
    obtain ⟨post, rfl, rfl, hpost⟩ := Text.splitLast_eq_some hs
    exact ⟨mid ++ ';' :: post, by simp, by simp, Or.inl ⟨mid, post, rfl, hmid, hpost⟩⟩

namespace Column

variable {column : Column} {item front back : Text} {items fronts backs : List Text}

/-- The item picked is the first that the name begins. -/
theorem pick?_eq_some_iff : pick? name items = some (fronts, item, backs) ↔
    items = fronts ++ item :: backs ∧ isNamed name item = true ∧
      ∀ front ∈ fronts, isNamed name front = false := by
  induction items generalizing fronts with
  | nil => simp [pick?]
  | cons it items ih =>
    rw [pick?]
    constructor
    · intro h
      split at h
      · next hn =>
        cases h
        exact ⟨rfl, hn, List.forall_mem_nil _⟩
      · next hn =>
        obtain ⟨⟨fs, it', bs⟩, hp, heq⟩ := Option.map_eq_some_iff.mp h
        cases heq
        obtain ⟨rfl, hnamed, hfronts⟩ := ih.mp hp
        exact ⟨rfl, hnamed, List.forall_mem_cons.mpr ⟨by simpa using hn, hfronts⟩⟩
    · rintro ⟨hitems, hnamed, hfronts⟩
      cases fronts with
      | nil =>
        obtain ⟨rfl, rfl⟩ := List.cons.inj hitems
        rw [if_pos hnamed]
      | cons front fronts =>
        obtain ⟨rfl, rfl⟩ := List.cons.inj hitems
        obtain ⟨hfront, hfronts⟩ := List.forall_mem_cons.mp hfronts
        rw [hfront, if_neg Bool.false_ne_true, ih.mpr ⟨rfl, hnamed, hfronts⟩, Option.map_some]

theorem isSuffix_of_nullClause? {afterBlank : Bool} {s rest : Text}
    (h : nullClause? afterBlank s = some rest) : rest <:+ s := by
  induction s generalizing afterBlank with
  | nil => simp [nullClause?] at h
  | cons c s ih =>
    rw [nullClause?] at h
    split at h
    · cases h
      exact List.suffix_rfl
    · exact (ih h).trans (List.suffix_cons c s)

/-- A column is found in an item of the list that the header's parenthesis opens. -/
theorem exists_items_of_find? (h : find? definition name = some column) :
    ∃ (header : Found Unit) (inside closing head : Text) (fronts : List Text) (item : Text)
      (backs : List Text), tableHeader.search definition = some header ∧
      closingParenthesis? definition = some (inside, closing) ∧
      head.length = definition.length - header.rest.length + 1 ∧
      inside = head ++ (fronts.flatten ++ (item ++ backs.flatten)) ∧
      column =
        { before := head ++ fronts.flatten ++ (Text.dropEnd isFiller item).takeWhile Text.isBlank
          item := Text.trimStart (Text.dropEnd isFiller item)
          after := item.drop (Text.dropEnd isFiller item).length ++ backs.flatten ++ closing } := by
  rw [find?] at h
  obtain ⟨header, hh, h⟩ := Option.bind_eq_some_iff.mp h
  obtain ⟨⟨inside, closing⟩, hc, h⟩ := Option.bind_eq_some_iff.mp h
  dsimp only at h
  generalize ho : definition.length - header.rest.length = opening at h
  split at h
  · next hlt =>
    obtain ⟨⟨fronts, item, backs⟩, hp, h⟩ := Option.bind_eq_some_iff.mp h
    obtain ⟨hitems, -⟩ := pick?_eq_some_iff.mp hp
    have hdrop : inside.drop (opening + 1) = fronts.flatten ++ (item ++ backs.flatten) := by
      rw [← Statement.flatten_split [','] (inside.drop (opening + 1)), hitems]
      simp
    have hhead : (inside.take (opening + 1)).length = opening + 1 := by
      rw [List.length_take]
      omega
    refine ⟨header, inside, closing, inside.take (opening + 1), fronts, item, backs, hh, hc, ?_, ?_,
      ?_⟩
    · rw [hhead, ho]
    · rw [← hdrop, List.take_append_drop]
    · cases h
      rfl
  · cases h

/-- A column found is cut out of the definition, between the header's parenthesis and the closing
one. -/
theorem exists_of_find? (h : find? definition name = some column) :
    ∃ header inside closing, tableHeader.search definition = some header ∧
      closingParenthesis? definition = some (inside, closing) ∧
      definition = column.before ++ column.item ++ column.after ∧
      definition.length - header.rest.length < column.before.length ∧
      (column.before ++ column.item).length ≤ inside.length := by
  obtain ⟨header, inside, closing, head, fronts, item, backs, hh, hc, hhead, rfl, rfl⟩ :=
    exists_items_of_find? h
  refine ⟨header, _, closing, hh, hc, ?_⟩
  obtain ⟨tail, -, hd, -⟩ := closingParenthesis?_eq_some hc
  have hitem : (Text.dropEnd isFiller item).takeWhile Text.isBlank ++
      (Text.trimStart (Text.dropEnd isFiller item) ++
        item.drop (Text.dropEnd isFiller item).length) = item := by
    rw [← List.append_assoc, Text.trimStart, List.takeWhile_append_dropWhile,
      Text.dropEnd_append_drop]
  generalize (Text.dropEnd isFiller item).takeWhile Text.isBlank = blanks at hitem ⊢
  generalize Text.trimStart (Text.dropEnd isFiller item) = text at hitem ⊢
  generalize item.drop (Text.dropEnd isFiller item).length = filler at hitem ⊢
  subst hitem
  refine ⟨by simp [hd], ?_, ?_⟩
  · simp only [List.length_append, hhead]
    omega
  · simp only [List.length_append]
    omega

/-- A clause goes into the column at one place, whatever the clause is. -/
theorem exists_insert_eq (column : Column) :
    ∃ left right, column.before ++ column.item ++ column.after = left ++ right ∧
      column.before.length ≤ left.length ∧
      left.length ≤ (column.before ++ column.item).length ∧
      ∀ clause, column.insert clause = left ++ ' ' :: clause ++ right := by
  obtain ⟨before, item, after⟩ := column
  have hs : (nullClause? false item).getD [] <:+ item := by
    cases hn : nullClause? false item with
    | none => exact List.nil_suffix
    | some rest => exact isSuffix_of_nullClause? hn
  simp only [insert]
  generalize (nullClause? false item).getD [] = tail at hs ⊢
  obtain ⟨core, rfl⟩ := hs
  refine ⟨before ++ core, tail ++ after, by simp, by simp, by simp, ?_⟩
  intro clause
  simp

/-- Clauses go to a place between the opening parenthesis of the header found and the closing
parenthesis. -/
theorem exists_insert_of_find? (h : find? definition name = some column) :
    ∃ header inside closing left right, tableHeader.search definition = some header ∧
      closingParenthesis? definition = some (inside, closing) ∧ definition = left ++ right ∧
      definition.length - header.rest.length < left.length ∧ left.length ≤ inside.length ∧
      ∀ clause, column.insert clause = left ++ ' ' :: clause ++ right := by
  obtain ⟨header, inside, closing, hh, hc, hd, hlt, hle⟩ := exists_of_find? h
  obtain ⟨left, right, hlr, hbefore, hitem, hinsert⟩ := exists_insert_eq column
  exact ⟨header, inside, closing, left, right, hh, hc, hd.trans hlr, by omega, by omega, hinsert⟩

end Column
end SchemaDump
