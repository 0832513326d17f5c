import SchemaDump.Text
import Mathlib.Data.List.TakeWhile

/-! Texts up to their blanks. Trimming takes blanks and nothing else. -/
namespace SchemaDump.Text

variable {s t : Text}

/-- A text without its blanks. -/
def withoutBlanks (s : Text) : Text := s.filter fun c => !isBlank c

@[simp] theorem withoutBlanks_nil : withoutBlanks [] = [] := rfl

@[simp] theorem withoutBlanks_append (s t : Text) :
    withoutBlanks (s ++ t) = withoutBlanks s ++ withoutBlanks t := List.filter_append ..

theorem withoutBlanks_eq_nil_iff : withoutBlanks s = [] ↔ ∀ c ∈ s, isBlank c := by
  simp [withoutBlanks]

theorem withoutBlanks_reverse (s : Text) : withoutBlanks s.reverse = (withoutBlanks s).reverse :=
  List.filter_reverse ..

@[simp] theorem withoutBlanks_trimStart (s : Text) :
    withoutBlanks (trimStart s) = withoutBlanks s := by
  induction s with
  | nil => rfl
  | cons c s ih =>
    by_cases hc : isBlank c
    · simpa [trimStart, withoutBlanks, hc] using ih
    · simp [trimStart, hc]

@[simp] theorem withoutBlanks_trimEnd (s : Text) : withoutBlanks (trimEnd s) = withoutBlanks s := by
  have h := withoutBlanks_trimStart s.reverse
  rw [trimEnd, dropEnd, withoutBlanks_reverse, ← trimStart, h, withoutBlanks_reverse,
    List.reverse_reverse]

@[simp] theorem withoutBlanks_trim (s : Text) : withoutBlanks (trim s) = withoutBlanks s := by
  rw [trim, withoutBlanks_trimEnd, withoutBlanks_trimStart]

theorem trim_eq_nil_iff : trim s = [] ↔ ∀ c ∈ s, isBlank c := by
  constructor
  · intro h
    rw [← withoutBlanks_eq_nil_iff, ← withoutBlanks_trim, h, withoutBlanks_nil]
  · intro h
    have hs : trimStart s = [] := List.dropWhile_eq_nil_iff.mpr h
    rw [trim, hs]
    rfl

theorem withoutBlanks_intercalate (hs : ∀ c ∈ s, isBlank c) (ts : List Text) :
    withoutBlanks (s.intercalate ts) = withoutBlanks ts.flatten := by
  have hb := withoutBlanks_eq_nil_iff.mpr hs
  induction ts with
  | nil => rfl
  | cons t ts ih =>
    cases ts with
    | nil => simp
    | cons u us =>
      rw [List.intercalate_cons_cons, List.flatten_cons, withoutBlanks_append,
        withoutBlanks_append, withoutBlanks_append, hb, List.append_nil, ih]

end SchemaDump.Text
