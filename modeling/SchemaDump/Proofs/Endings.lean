import SchemaDump.Text
import Mathlib.Data.List.DropRight

/-! Texts cut at the last occurrence of a character, or where an ending of certain characters
begins. -/
namespace SchemaDump.Text

variable {c : Char} {s t front back rest blanks : Text} {p : Char → Bool}

theorem ne_of_isBlank {d : Char} (hc : isBlank c = true) (hd : isBlank d = false) : c ≠ d := by
  rintro rfl
  rw [hc] at hd
  cases hd

theorem not_mem_of_forall (h : ∀ d ∈ s, p d = true) (hc : p c = false) : c ∉ s := by
  intro hm
  rw [h c hm] at hc
  cases hc

theorem splitLast_eq_none_iff : splitLast c s = none ↔ c ∉ s := by
  induction s with
  | nil => simp [splitLast]
  | cons x s ih =>
    rw [splitLast, List.mem_cons, not_or]
    cases hs : splitLast c s with
    | none =>
      have hc := ih.mp hs
      rcases eq_or_ne x c with rfl | hx
      · simp
      · simp [hx, hx.symm, hc]
    | some cut =>
      have hc : c ∈ s := by
        by_contra hn
        rw [ih.mpr hn] at hs
        cases hs
      simp [hc]

theorem splitLast_append (h : c ∉ rest) :
    splitLast c (front ++ c :: rest) = some (front, c :: rest) := by
  induction front with
  | nil => simp [splitLast, splitLast_eq_none_iff.mpr h]
  | cons x front ih => simp [splitLast, ih]

theorem splitLast_eq_some (h : splitLast c s = some (front, back)) :
    ∃ rest, back = c :: rest ∧ s = front ++ back ∧ c ∉ rest := by
  induction s generalizing front with
  | nil => simp [splitLast] at h
  | cons x s ih =>
    rw [splitLast] at h
    split at h
    · next hs =>
      cases h
      obtain ⟨rest, rfl, rfl, hc⟩ := ih hs
      exact ⟨rest, rfl, rfl, hc⟩
    · next hs =>
      split at h
      · next hx =>
        cases h
        exact ⟨s, by rw [hx], rfl, splitLast_eq_none_iff.mp hs⟩
      · cases h

theorem dropEnd_append (p : Char → Bool) (s : Text) : dropEnd p s ++ s.rtakeWhile p = s :=
  List.rdropWhile_append_rtakeWhile

theorem dropEnd_append_drop (p : Char → Bool) (s : Text) :
    dropEnd p s ++ s.drop (dropEnd p s).length = s := by
  conv => enter [1, 2, 2]; rw [← dropEnd_append p s]
  rw [List.drop_left, dropEnd_append]

theorem trimEnd_append_rtakeWhile (s : Text) : trimEnd s ++ s.rtakeWhile isBlank = s :=
  dropEnd_append isBlank s

theorem getLast?_dropEnd (p : Char → Bool) (s : Text) :
    ∀ c ∈ (dropEnd p s).getLast?, p c = false := by
  intro c hc
  have hhead := List.head?_dropWhile_not p s.reverse
  rw [dropEnd, List.getLast?_reverse] at hc
  rw [hc] at hhead
  simpa using hhead

/-- Dropping stops at a character that does not pass. -/
theorem dropEnd_append_of_not (hc : p c = false) (front s : Text) :
    dropEnd p (front ++ c :: s) = front ++ c :: dropEnd p s := by
  simp only [dropEnd, List.reverse_append, List.reverse_cons, List.append_assoc,
    List.dropWhile_append]
  split
  · next h => simp [hc, List.isEmpty_iff.mp h]
  · simp

theorem trimEnd_append_of_not_isBlank (hc : isBlank c = false) (front s : Text) :
    trimEnd (front ++ c :: s) = front ++ c :: trimEnd s :=
  dropEnd_append_of_not hc front s

theorem trim_trimStart (s : Text) : trim (trimStart s) = trim s := by
  rw [trim, trim, trimStart, trimStart, List.dropWhile_idempotent]

theorem trimEnd_append_of_isBlank (hb : ∀ c ∈ blanks, isBlank c = true) (s : Text) :
    trimEnd (s ++ blanks) = trimEnd s := by
  rw [trimEnd, dropEnd, List.reverse_append, List.dropWhile_append_of_pos (by simpa using hb)]
  rfl

/-- Blanks on either side make no difference to a trimmed text. -/
theorem trim_append_of_isBlank (hb : ∀ c ∈ blanks, isBlank c = true) (s : Text) :
    trim (blanks ++ s) = trim s ∧ trim (s ++ blanks) = trim s := by
  constructor
  · rw [trim, trimStart, List.dropWhile_append_of_pos hb]
    rfl
  · have hnil : blanks.dropWhile isBlank = [] := List.dropWhile_eq_nil_iff.mpr hb
    rw [trim, trimStart, List.dropWhile_append, hnil]
    split
    · next h => rw [trim, trimStart, List.isEmpty_iff.mp h]
    · exact trimEnd_append_of_isBlank hb _

/-- No end of a trimmed text ends in a blank. -/
theorem trimEnd_eq_self_of_isSuffix (h : t <:+ trimEnd s) : trimEnd t = t := by
  refine List.rdropWhile_eq_self_iff.mpr fun hne => ?_
  have hs : trimEnd s ≠ [] := by
    intro hs
    exact hne (List.suffix_nil.mp (hs ▸ h))
  rw [h.getLast hne]
  exact List.rdropWhile_last_not isBlank s hs

end SchemaDump.Text
