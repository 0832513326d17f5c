import SchemaDump.Proofs.Pieces

/-! The scanner, step by step. Whatever it takes is kept in the statement so far or in a finished
one, and behind each cut it starts anew. -/
namespace SchemaDump

namespace Mode

theorem after_code (c : Char) : Mode.after .code c =
    if c = '\x27' then .string else if c = '"' then .quotedIdentifier else .code := by
  unfold Mode.after
  split <;> simp_all

theorem after_lineComment (c : Char) :
    Mode.after .lineComment c = if c = '\r' ∨ c = '\n' then .code else .lineComment := by
  unfold Mode.after
  split <;> simp_all

theorem after_blockComment (c : Char) : Mode.after .blockComment c = .blockComment := rfl

theorem after_string (c : Char) :
    Mode.after .string c = if c = '\x27' then .code else .string := by
  unfold Mode.after
  split <;> simp_all

theorem after_quotedIdentifier (c : Char) :
    Mode.after .quotedIdentifier c = if c = '"' then .code else .quotedIdentifier := by
  unfold Mode.after
  split <;> simp_all

/-- A character without a mark opens no comment. -/
theorem isComment_after {m : Mode} (hm : m.isComment = false) (c : Char) :
    (m.after c).isComment = false := by
  cases m with
  | code => rw [after_code]; split_ifs <;> rfl
  | string => rw [after_string]; split_ifs <;> rfl
  | quotedIdentifier => rw [after_quotedIdentifier]; split_ifs <;> rfl
  | lineComment | blockComment => simp [isComment] at hm

end Mode

namespace Statement

open Piece

variable {separator sofar s st : Text} {m n : Mode} {c d : Char} {ps qs : List Piece}
  {xs ys : List Text}

/-- No mark begins with `c` if `ps` comes next. -/
def NoMark (m : Mode) (c : Char) (ps : List Piece) : Prop :=
  ∀ d qs, ps = .plain d :: qs → m.afterMark? c d = none

theorem noMark_nil (m : Mode) (c : Char) : NoMark m c [] := by
  rintro d qs ⟨⟩

theorem NoMark.of_append (h : NoMark m c (ps ++ qs)) : NoMark m c ps := by
  rintro d rs rfl
  exact h d (rs ++ qs) rfl

theorem ne_dollar_of_afterMark? (h : m.afterMark? c d = some n) : c ≠ '$' ∧ d ≠ '$' := by
  unfold Mode.afterMark? at h
  split at h <;> simp_all

theorem ofText_mark (h : m.afterMark? c d = some n) :
    ofText (c :: d :: s) = .plain c :: .plain d :: ofText s := by
  obtain ⟨hc, hd⟩ := ne_dollar_of_afterMark? h
  rw [(Starts.plain hc).ofText_eq, (Starts.plain hd).ofText_eq]

theorem NoMark.afterMark?_eq_none (h : NoMark m c (ofText (d :: s))) : m.afterMark? c d = none := by
  cases hm : m.afterMark? c d with
  | none => rfl
  | some n =>
    have hd := (ne_dollar_of_afterMark? hm).2
    rw [← hm]
    exact h d _ (Starts.plain hd).ofText_eq

theorem mark_or_noMark (m : Mode) (c : Char) (s : Text) :
    (∃ d t n, s = d :: t ∧ m.afterMark? c d = some n) ∨ NoMark m c (ofText s) := by
  by_cases h : ∃ d t n, s = d :: t ∧ m.afterMark? c d = some n
  · exact Or.inl h
  · right
    intro d qs hs
    obtain ⟨t, rfl, -⟩ := exists_of_ofText_eq_plain hs
    cases hm : m.afterMark? c d with
    | none => rfl
    | some n => exact (h ⟨d, t, n, rfl, hm⟩).elim

theorem scan_nil : scan separator m sofar [] = if sofar = [] then [] else [sofar.reverse] := by
  simp [scan]

theorem scan_dollar (t : Text) : scan separator m sofar (.dollar t :: ps) =
    scan separator m (t.reverse ++ sofar) ps := by
  simp [scan]

theorem scan_mark (h : m.afterMark? c d = some n) :
    scan separator m sofar (.plain c :: .plain d :: ps) =
      scan separator n (d :: c :: sofar) ps := by
  simp [scan, h]

theorem scan_plain (h : NoMark m c ps) : scan separator m sofar (.plain c :: ps) =
    if m.cuts separator c then (c :: sofar).reverse :: scan separator .code [] ps
    else scan separator (m.after c) (c :: sofar) ps := by
  match ps with
  | [] => simp [scan]
  | .dollar t :: ps => simp [scan]
  | .plain d :: ps => simp [scan, h d ps rfl]

theorem scan_cut (h : NoMark m c ps) (hc : m.cuts separator c = true) :
    scan separator m sofar (.plain c :: ps) =
      (c :: sofar).reverse :: scan separator .code [] ps := by
  rw [scan_plain h, if_pos hc]

theorem scan_on (h : NoMark m c ps) (hc : m.cuts separator c = false) :
    scan separator m sofar (.plain c :: ps) = scan separator (m.after c) (c :: sofar) ps := by
  rw [scan_plain h, if_neg (by simp [hc])]

/-- Induction along a scan, one case for each thing a step can do. -/
@[elab_as_elim]
theorem scan_induct (separator : Text) {motive : Mode → Text → List Piece → Prop}
    (done : ∀ m sofar, motive m sofar [])
    (dollar : ∀ m sofar t ps, motive m (t.reverse ++ sofar) ps → motive m sofar (.dollar t :: ps))
    (mark : ∀ m sofar c d n ps, m.afterMark? c d = some n → motive n (d :: c :: sofar) ps →
      motive m sofar (.plain c :: .plain d :: ps))
    (cut : ∀ m sofar c ps, NoMark m c ps → m.cuts separator c = true → motive .code [] ps →
      motive m sofar (.plain c :: ps))
    (on : ∀ m sofar c ps, NoMark m c ps → m.cuts separator c = false →
      motive (m.after c) (c :: sofar) ps → motive m sofar (.plain c :: ps))
    (m : Mode) (sofar : Text) (ps : List Piece) : motive m sofar ps := by
  induction m, sofar, ps using scan.induct separator with
  | case1 m sofar | case2 m sofar => exact done m sofar
  | case3 m sofar t ps ih => exact dollar m sofar t ps ih
  | case4 m sofar c d ps n h ih => exact mark m sofar c d n ps h ih
  | case5 m sofar c d ps h hc ih => exact cut m sofar c _ (by rintro _ _ ⟨⟩; exact h) hc ih
  | case6 m sofar c d ps h hc ih =>
    exact on m sofar c _ (by rintro _ _ ⟨⟩; exact h) (by simpa using hc) ih
  | case7 m sofar c ps h hc ih => exact cut m sofar c ps (fun d qs hp => (h d qs hp).elim) hc ih
  | case8 m sofar c ps h hc ih =>
    exact on m sofar c ps (fun d qs hp => (h d qs hp).elim) (by simpa using hc) ih

theorem flatten_scan : (scan separator m sofar ps).flatten = sofar.reverse ++ textOf ps := by
  induction m, sofar, ps using scan_induct separator with
  | done m sofar => rw [scan_nil]; split <;> simp_all
  | dollar m sofar t ps ih => simp [scan_dollar, ih, text]
  | mark m sofar c d n ps h ih => simp [scan_mark h, ih, text]
  | cut m sofar c ps h hc ih => simp [scan_cut h hc, ih, text]
  | on m sofar c ps h hc ih => simp [scan_on h hc, ih, text]

theorem flatten_split (separator s : Text) : (split separator s).flatten = s := by
  simp [split, flatten_scan]

theorem ne_nil_of_mem_scan (hs : st ∈ scan separator m sofar ps) : st ≠ [] := by
  induction m, sofar, ps using scan_induct separator with
  | done m sofar => rw [scan_nil] at hs; split at hs <;> simp_all
  | dollar m sofar t ps ih => exact ih (by rwa [scan_dollar] at hs)
  | mark m sofar c d n ps h ih => exact ih (by rwa [scan_mark h] at hs)
  | cut m sofar c ps h hc ih =>
    rw [scan_cut h hc] at hs
    rcases List.mem_cons.mp hs with rfl | hs
    · simp
    · exact ih hs
  | on m sofar c ps h hc ih => exact ih (by rwa [scan_on h hc] at hs)

theorem eq_singleton_of_cuts (h : m.cuts separator c = true) : separator = [c] := by
  simp only [Mode.cuts, Bool.and_eq_true, decide_eq_true_eq] at h
  exact h.1.1.symm

/-- Only what the text ends in may lack a separator. -/
theorem ends_of_mem_dropLast_scan (hs : st ∈ (scan separator m sofar ps).dropLast) :
    ∃ t c, separator = [c] ∧ st = t ++ [c] := by
  induction m, sofar, ps using scan_induct separator with
  | done m sofar => rw [scan_nil] at hs; split at hs <;> simp_all
  | dollar m sofar t ps ih => exact ih (by rwa [scan_dollar] at hs)
  | mark m sofar c d n ps h ih => exact ih (by rwa [scan_mark h] at hs)
  | cut m sofar c ps h hc ih =>
    rw [scan_cut h hc] at hs
    cases hl : scan separator .code [] ps with
    | nil => simp [hl] at hs
    | cons x xs =>
      rw [hl, List.dropLast_cons_of_ne_nil (by simp), ← hl] at hs
      rcases List.mem_cons.mp hs with rfl | hs
      · exact ⟨sofar.reverse, c, eq_singleton_of_cuts hc, by simp⟩
      · exact ih hs
  | on m sofar c ps h hc ih => exact ih (by rwa [scan_on h hc] at hs)

theorem getLast?_of_split {c : Char} (h : split [c] s = xs ++ st :: ys) (hys : ys ≠ []) :
    st.getLast? = some c := by
  have hmem : st ∈ (split [c] s).dropLast := by
    rw [h, List.dropLast_append_of_ne_nil (List.cons_ne_nil st ys),
      List.dropLast_cons_of_ne_nil hys]
    simp
  obtain ⟨t, d, hd, rfl⟩ := ends_of_mem_dropLast_scan hmem
  obtain rfl : c = d := by simpa using hd
  simp

/-- Where a scan gives statements after others, the pieces fall in two as well, and those after the
cut are scanned from the start. -/
theorem exists_append_of_scan (hs : scan separator m sofar ps = xs ++ ys) (hx : xs ≠ []) :
    ∃ ps₁ ps₂, ps = ps₁ ++ ps₂ ∧
      scan separator m sofar ps₁ = xs ∧ scan separator .code [] ps₂ = ys := by
  obtain ⟨x, xs, rfl⟩ := List.exists_cons_of_ne_nil hx
  induction m, sofar, ps using scan_induct separator generalizing x xs with
  | done m sofar =>
    refine ⟨[], [], rfl, ?_⟩
    rw [scan_nil] at hs ⊢
    split at hs
    · simp at hs
    · simp_all [scan]
  | dollar m sofar t ps ih =>
    rw [scan_dollar] at hs
    obtain ⟨ps₁, ps₂, rfl, h₁, h₂⟩ := ih _ _ hs hx
    exact ⟨.dollar t :: ps₁, ps₂, rfl, by rw [scan_dollar, h₁], h₂⟩
  | mark m sofar c d n ps h ih =>
    rw [scan_mark h] at hs
    obtain ⟨ps₁, ps₂, rfl, h₁, h₂⟩ := ih _ _ hs hx
    exact ⟨.plain c :: .plain d :: ps₁, ps₂, rfl, by rw [scan_mark h, h₁], h₂⟩
  | cut m sofar c ps h hc ih =>
    rw [scan_cut h hc, List.cons_append, List.cons.injEq] at hs
    obtain ⟨rfl, hs⟩ := hs
    cases xs with
    | nil => exact ⟨[.plain c], ps, rfl, by rw [scan_cut (noMark_nil m c) hc]; rfl, hs⟩
    | cons y xs =>
      obtain ⟨ps₁, ps₂, rfl, h₁, h₂⟩ := ih _ _ hs (by simp)
      exact ⟨.plain c :: ps₁, ps₂, rfl, by rw [scan_cut h.of_append hc, h₁], h₂⟩
  | on m sofar c ps h hc ih =>
    rw [scan_on h hc] at hs
    obtain ⟨ps₁, ps₂, rfl, h₁, h₂⟩ := ih _ _ hs hx
    exact ⟨.plain c :: ps₁, ps₂, rfl, by rw [scan_on h.of_append hc, h₁], h₂⟩

end Statement
end SchemaDump
