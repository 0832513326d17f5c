import SchemaDump.Reading
import Mathlib.Data.List.TakeWhile

/-! What readings give and leave, and where a search for one succeeds. -/
namespace SchemaDump

namespace Text

/-- A keyword stands at the start of a text if the capitals of its letters do. -/
theorem afterWord_eq_some_iff {w s rest : Text} :
    afterWord w s = some rest ↔ ∃ front, s = front ++ rest ∧ front.map capital = w := by
  induction w generalizing s with
  | nil =>
    simp only [afterWord, Option.some.injEq, List.map_eq_nil_iff]
    constructor
    · rintro rfl
      exact ⟨[], rfl, rfl⟩
    · rintro ⟨front, rfl, rfl⟩
      rfl
  | cons k w ih =>
    cases s with
    | nil => simp [afterWord]
    | cons c s =>
      rw [afterWord]
      split
      · next hc =>
        rw [ih]
        constructor
        · rintro ⟨front, rfl, rfl⟩
          exact ⟨c :: front, rfl, by rw [List.map_cons, hc]⟩
        · rintro ⟨front, hs, hw⟩
          cases front with
          | nil => cases hw
          | cons x front =>
            cases hs
            exact ⟨front, rfl, (List.cons.inj hw).2⟩
      · next hc =>
        refine ⟨nofun, ?_⟩
        rintro ⟨front, hs, hw⟩
        cases front with
        | nil => cases hw
        | cons x front =>
          cases hs
          exact (hc (List.cons.inj hw).1).elim

end Text

namespace Reading

variable {α β : Type} {r t : Reading α} {f : α → Reading β} {a : α} {b : β} {s rest : Text}

theorem mem_pure {a' : α} : (a', rest) ∈ (pure a : Reading α) s ↔ a' = a ∧ rest = s := by
  change _ ∈ [(a, s)] ↔ _
  simp

theorem mem_bind : (b, rest) ∈ (r >>= f) s ↔ ∃ a u, (a, u) ∈ r s ∧ (b, rest) ∈ f a u := by
  change _ ∈ (r s).flatMap _ ↔ _
  simp

theorem mem_orElse : (a, rest) ∈ (r <|> t) s ↔ (a, rest) ∈ r s ∨ (a, rest) ∈ t s := by
  change _ ∈ r s ++ t s ↔ _
  simp

theorem mem_word {w : String} {u : Unit} :
    (u, rest) ∈ word w s ↔ Text.afterWord w.toList s = some rest := by
  cases h : Text.afterWord w.toList s <;> simp [word, h, eq_comm]

theorem mem_blanks {u : Unit} :
    (u, rest) ∈ blanks s ↔ ∃ c v, s = c :: v ∧ Text.isBlank c = true ∧ rest = Text.trimStart v := by
  cases s with
  | nil => simp [blanks]
  | cons c s =>
    by_cases hc : Text.isBlank c
    · simp only [blanks, hc, if_true, List.mem_singleton, Prod.mk.injEq, true_and, List.cons.injEq]
      constructor
      · intro h
        exact ⟨c, s, ⟨rfl, rfl⟩, hc, h⟩
      · rintro ⟨_, _, ⟨rfl, rfl⟩, -, h⟩
        exact h
    · simp only [blanks, hc, Bool.false_eq_true, if_false, List.not_mem_nil, List.cons.injEq,
        false_iff]
      rintro ⟨_, _, ⟨rfl, rfl⟩, hd, -⟩
      exact hc hd

theorem mem_gap {u : Unit} : (u, rest) ∈ gap s ↔ rest = Text.trimStart s := by
  simp [gap]

theorem mem_char {c : Char} {u : Unit} : (u, rest) ∈ char c s ↔ s = c :: rest := by
  cases s with
  | nil => simp [char]
  | cons x s =>
    by_cases hx : x = c
    · simp [char, hx, eq_comm]
    · simp [char, hx]

theorem mem_ahead {p : Text → Bool} {u : Unit} : (u, rest) ∈ ahead p s ↔ p s = true ∧ rest = s := by
  by_cases hp : p s <;> simp [ahead, hp]

theorem search_eq_none_iff : search r s = none ↔ ∀ u, u <:+ s → r u = [] := by
  induction s with
  | nil => simp [search]
  | cons c s ih =>
    rw [search]
    cases hr : r (c :: s) with
    | nil => simp [ih, List.suffix_cons_iff, hr]
    | cons x xs =>
      simp only [reduceCtorEq, false_iff]
      intro h
      rw [h (c :: s) List.suffix_rfl] at hr
      cases hr

/-- A search gives the preferred reading at the first place that has one. -/
theorem search_eq_some {found : Found α} (h : search r s = some found) :
    ∃ front more, s = front ++ found.here ∧ r found.here = (found.value, found.rest) :: more ∧
      ∀ x y, s = x ++ y → x.length < front.length → r y = [] := by
  induction s with
  | nil =>
    rw [search] at h
    cases hr : r [] with
    | nil => simp [hr] at h
    | cons p more =>
      rw [hr] at h
      cases h
      exact ⟨[], more, rfl, hr, by simp⟩
  | cons c s ih =>
    rw [search] at h
    split at h
    · next a rest more hr =>
      cases h
      exact ⟨[], more, rfl, hr, by simp⟩
    · next hr =>
      obtain ⟨front, more, hs, hf, hbefore⟩ := ih h
      refine ⟨c :: front, more, by rw [List.cons_append, ← hs], hf, ?_⟩
      intro x y hxy hlt
      cases x with
      | nil => rw [← List.nil_append y, ← hxy, hr]
      | cons d x =>
        rw [List.cons_append, List.cons.injEq] at hxy
        exact hbefore x y hxy.2 (by simpa using hlt)

/-- The first place where a reading succeeds is the one that is found. -/
theorem search_of_append {front here : Text} {more : List (α × Text)}
    (hr : r here = (a, rest) :: more)
    (hbefore : ∀ x y, front ++ here = x ++ y → x.length < front.length → r y = []) :
    search r (front ++ here) = some ⟨a, here, rest⟩ := by
  induction front with
  | nil => cases here <;> simp [search, hr]
  | cons c front ih =>
    have hnil : r (c :: (front ++ here)) = [] := hbefore [] _ rfl (by simp)
    rw [List.cons_append, search, hnil]
    refine ih fun x y hxy hlt => ?_
    exact hbefore (c :: x) y (by rw [List.cons_append, hxy, List.cons_append]) (by simpa using hlt)

end Reading
end SchemaDump
