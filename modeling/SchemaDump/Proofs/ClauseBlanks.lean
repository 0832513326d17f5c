import SchemaDump.Proofs.Attachables
import SchemaDump.Proofs.Blanks
import SchemaDump.Proofs.IdentityClauses
import SchemaDump.Proofs.Lists
import Mathlib.Data.List.Forall2

/-! The blanks of identity clauses. They are squeezed from one end of the clause to the other, and so
they are in quoted identifiers. All other characters stay where they are. -/
namespace SchemaDump

namespace Text

variable {c : Char}

theorem takeWhile_append_cons (hc : isBlank c = false) (a b : Text) :
    (a ++ c :: b).takeWhile isBlank = a.takeWhile isBlank := by
  induction a with
  | nil => simp [hc]
  | cons d a ih => rw [List.cons_append, List.takeWhile_cons, List.takeWhile_cons, ih]

theorem dropWhile_append_cons (hc : isBlank c = false) (a b : Text) :
    (a ++ c :: b).dropWhile isBlank = a.dropWhile isBlank ++ c :: b := by
  induction a with
  | nil => simp [hc]
  | cons d a ih =>
    rw [List.cons_append, List.dropWhile_cons, List.dropWhile_cons, ih]
    split_ifs <;> rfl

theorem withoutBlanks_cons (c : Char) (s : Text) :
    withoutBlanks (c :: s) = withoutBlanks [c] ++ withoutBlanks s :=
  withoutBlanks_append [c] s

end Text

namespace Clause

open Text Reading

variable {s t front rest : Text} {c d : Char}

theorem paddedRun_of_none (h : padded? s = none) : paddedRun s = ([], s) := by
  rw [paddedRun]
  split <;> simp_all

theorem paddedRun_of_some (h : padded? s = some (front, rest)) :
    paddedRun s = (front ++ (paddedRun rest).1, (paddedRun rest).2) := by
  rw [paddedRun]
  split <;> simp_all

theorem tighten_nil : tighten [] = [] := by
  rw [tighten]
  rfl

theorem tighten_of_some (h : padded? s = some (front, rest)) :
    tighten s = trim (front ++ (paddedRun rest).1) ++ tighten (paddedRun rest).2 := by
  rw [tighten]
  split <;> simp_all

theorem tighten_cons_of_none (h : padded? (c :: t) = none) : tighten (c :: t) = c :: tighten t := by
  rw [tighten]
  split <;> simp_all

/-- The blanks of a clause put in order. -/
def tidy (s : Text) : Text := tighten (squeeze s)

/-- A character that is neither a blank nor a parenthesis. -/
def IsFirm (c : Char) : Prop := isBlank c = false ∧ c ≠ '(' ∧ c ≠ ')'

theorem squeeze_append_cons (hc : isBlank c = false) (a b : Text) :
    squeeze (a ++ c :: b) = squeeze a ++ c :: squeeze b := by
  have hcons (b : Text) : squeeze (c :: b) = c :: squeeze b := by
    rw [squeeze, if_neg (by simp [hc])]
  fun_induction squeeze a with
  | case1 => exact hcons b
  | case2 d a hd ih =>
    rw [List.cons_append, squeeze, if_pos hd, takeWhile_append_cons hc, dropWhile_append_cons hc,
      ih, List.append_assoc]
  | case3 d a hd ih => rw [List.cons_append, squeeze, if_neg hd, ih, List.cons_append]

/-- A parenthesis and its blanks do not reach across a firm character. -/
theorem padded?_append_cons (hc : IsFirm c) (a b : Text) :
    padded? (a ++ c :: b) = (padded? a).map fun p => (p.1, p.2 ++ c :: b) := by
  obtain ⟨hblank, hopen, hclose⟩ := hc
  cases a with
  | nil => simp [padded?, hblank, hopen]
  | cons d a =>
    simp only [List.cons_append, padded?, takeWhile_append_cons hblank,
      dropWhile_append_cons hblank]
    split_ifs with hd hd'
    · cases a.takeWhile isBlank <;> rfl
    · generalize a.dropWhile isBlank = t
      cases t with
      | nil =>
        simp only [List.nil_append]
        split
        · next heq => exact (hclose (List.cons.inj heq).1).elim
        · rfl
      | cons e t =>
        simp only [List.cons_append]
        split <;> split <;> simp_all
    · rfl

theorem paddedRun_append_cons (hc : IsFirm c) (a b : Text) :
    paddedRun (a ++ c :: b) = ((paddedRun a).1, (paddedRun a).2 ++ c :: b) := by
  fun_induction paddedRun a with
  | case1 s h =>
    refine paddedRun_of_none ?_
    rw [padded?_append_cons hc, h]
    rfl
  | case2 s front rest h hlt more rest' hrun ih =>
    have hlong : padded? (s ++ c :: b) = some (front, rest ++ c :: b) := by
      rw [padded?_append_cons hc, h]
      rfl
    rw [paddedRun_of_some hlong, ih, hrun]

theorem tighten_append_cons (hc : IsFirm c) (a b : Text) :
    tighten (a ++ c :: b) = tighten a ++ c :: tighten b := by
  fun_induction tighten a with
  | case1 s front rest h hlt hle run ih =>
    have hlong : padded? (s ++ c :: b) = some (front, rest ++ c :: b) := by
      rw [padded?_append_cons hc, h]
      rfl
    rw [tighten_of_some hlong, paddedRun_append_cons hc, ih, List.append_assoc]
  | case2 =>
    refine tighten_cons_of_none ?_
    exact padded?_append_cons hc [] b
  | case3 d t h ih =>
    have hlong : padded? (d :: (t ++ c :: b)) = none := by
      rw [← List.cons_append, padded?_append_cons hc, h]
      rfl
    rw [List.cons_append, tighten_cons_of_none hlong, ih, List.cons_append]

/-- On both sides of a firm character the blanks are put in order apart. -/
theorem tidy_append_cons (hc : IsFirm c) (a b : Text) :
    tidy (a ++ c :: b) = tidy a ++ c :: tidy b := by
  rw [tidy, squeeze_append_cons hc.1, tighten_append_cons hc]
  rfl

theorem withoutBlanks_squeeze (s : Text) : withoutBlanks (squeeze s) = withoutBlanks s := by
  fun_induction squeeze s with
  | case1 => rfl
  | case2 c s hc ih =>
    have hblanks : ∀ d ∈ c :: s.takeWhile isBlank, isBlank d = true :=
      List.forall_mem_cons.mpr ⟨hc, fun d hd => List.mem_takeWhile_imp hd⟩
    have hrun : ∀ d ∈ squeezeRun (c :: s.takeWhile isBlank), isBlank d = true := by
      have hspace : ∀ d ∈ [' '], isBlank d = true := List.forall_mem_singleton.mpr (by decide)
      unfold squeezeRun
      split
      · next d hd =>
        split_ifs
        · exact hspace
        · exact hd ▸ hblanks
      · exact hspace
    calc withoutBlanks (squeezeRun (c :: s.takeWhile isBlank) ++ squeeze (s.dropWhile isBlank))
      _ = withoutBlanks (c :: s.takeWhile isBlank ++ s.dropWhile isBlank) := by
        rw [withoutBlanks_append, withoutBlanks_append, withoutBlanks_eq_nil_iff.mpr hrun,
          withoutBlanks_eq_nil_iff.mpr hblanks, ih]
      _ = withoutBlanks (c :: s) := by rw [List.cons_append, List.takeWhile_append_dropWhile]
  | case3 c s hc ih => rw [withoutBlanks_cons, ih, ← withoutBlanks_cons]

theorem withoutBlanks_tighten (s : Text) : withoutBlanks (tighten s) = withoutBlanks s := by
  fun_induction tighten s with
  | case1 s front rest h hlt hle run ih =>
    have hrun : run.1 ++ run.2 = rest := paddedRun_append rest
    rw [withoutBlanks_append, withoutBlanks_trim, ih, ← withoutBlanks_append, List.append_assoc,
      hrun, ← eq_append_of_padded? h]
  | case2 => rfl
  | case3 c t h ih => rw [withoutBlanks_cons, ih, ← withoutBlanks_cons]

theorem withoutBlanks_tidy (s : Text) : withoutBlanks (tidy s) = withoutBlanks s := by
  rw [tidy, withoutBlanks_tighten, withoutBlanks_squeeze]

theorem length_squeeze_le (s : Text) : (squeeze s).length ≤ s.length := by
  fun_induction squeeze s with
  | case1 => exact Nat.le_refl 0
  | case2 c s hc ih =>
    have hrun : (squeezeRun (c :: s.takeWhile isBlank)).length = 1 := by
      unfold squeezeRun
      split
      · split_ifs <;> rfl
      · rfl
    have hdrop := (List.dropWhile_sublist (l := s) isBlank).length_le
    rw [List.length_append, hrun, List.length_cons]
    omega
  | case3 c s hc ih => exact Nat.succ_le_succ ih

theorem squeeze_cons_of_head? (hc : isBlank c = true) (hs : s.head?.any isBlank = false) :
    squeeze (c :: s) = (if c = '\n' then ' ' else c) :: squeeze s := by
  have hrun : s.takeWhile isBlank = [] ∧ s.dropWhile isBlank = s := by
    cases s with
    | nil => exact ⟨rfl, rfl⟩
    | cons d s =>
      have hd : isBlank d = false := by simpa using hs
      simp [hd]
  rw [squeeze, if_pos hc, hrun.1, hrun.2, squeezeRun]
  split_ifs <;> rfl

/-- Of two blanks one is taken away. -/
theorem length_squeeze_lt (hc : isBlank c = true) (hd : isBlank d = true) (s : Text) :
    (squeeze (c :: d :: s)).length < (c :: d :: s).length := by
  have hle := length_squeeze_le (s.dropWhile isBlank)
  have hdrop := (List.dropWhile_sublist (l := s) isBlank).length_le
  rw [squeeze, if_pos hc, List.takeWhile_cons_of_pos hd, List.dropWhile_cons_of_pos hd, squeezeRun]
  · simp only [List.length_append, List.length_cons, List.length_nil]
    omega
  · simp

theorem squeeze_cons_eq_self_iff : squeeze (c :: s) = c :: s ↔
    squeeze s = s ∧ c ≠ '\n' ∧ (isBlank c = true → s.head?.any isBlank = false) := by
  by_cases hc : isBlank c = true
  · cases hs : s.head?.any isBlank with
    | false =>
      rw [squeeze_cons_of_head? hc hs]
      by_cases hline : c = '\n'
      · subst hline
        simp
      · simp [hline]
    | true =>
      refine iff_of_false (fun h => ?_) (by simp [hc])
      cases s with
      | nil => cases hs
      | cons d s =>
        have hlt := length_squeeze_lt hc hs s
        rw [h] at hlt
        exact hlt.false
  · have hline : c ≠ '\n' := by
      rintro rfl
      exact hc (by decide)
    rw [squeeze, if_neg hc]
    simp [hc, hline]

theorem length_trim_le (s : Text) : (trim s).length ≤ s.length := by
  have hstart := (List.dropWhile_sublist (l := s) isBlank).length_le
  have hend := congrArg List.length (trimEnd_append_rtakeWhile (trimStart s))
  rw [List.length_append, trimStart] at hend
  rw [trim, trimStart]
  omega

/-- A trimmed text is shorter if it had a blank at either end. -/
theorem length_trim_lt (hc : isBlank c = true) (s : Text) :
    (trim (c :: s)).length < (c :: s).length ∧ (trim (s ++ [c])).length < (s ++ [c]).length := by
  have hone : ∀ d ∈ [c], isBlank d = true := by simpa using hc
  obtain ⟨hstart, hend⟩ := trim_append_of_isBlank hone s
  have hle := length_trim_le s
  rw [← List.singleton_append, hstart, hend, List.length_append, List.length_append,
    List.length_singleton]
  omega

/-- An opening parenthesis that is padded ends in a blank, and no blank is behind it. -/
theorem ends_of_padded? (h : padded? s = some (front, rest)) (hs : s.head?.any isBlank = false) :
    (∃ t c, front = t ++ [c] ∧ isBlank c = true) ∧ rest.head?.any isBlank = false := by
  cases s with
  | nil => simp [padded?] at h
  | cons c s =>
    have hc : isBlank c = false := by simpa using hs
    simp only [padded?, hc, Bool.false_eq_true, if_false] at h
    split_ifs at h with hopen
    split at h
    · cases h
    · next hrun =>
      cases h
      obtain hnil | ⟨t, d, ht⟩ := List.eq_nil_or_concat' (s.takeWhile isBlank)
      · exact (hrun hnil).elim
      · have hd : isBlank d = true := List.mem_takeWhile_imp (l := s) (by simp [ht])
        exact ⟨⟨c :: t, d, by rw [ht, List.cons_append], hd⟩, head?_trimStart s⟩

theorem ends_of_paddedRun (hs : s.head?.any isBlank = false) :
    (paddedRun s).1 = [] ∨ ∃ t c, (paddedRun s).1 = t ++ [c] ∧ isBlank c = true := by
  fun_induction paddedRun s with
  | case1 => exact Or.inl rfl
  | case2 s front rest h hlt more rest' hrun ih =>
    obtain ⟨⟨t, c, rfl, hc⟩, hrest⟩ := ends_of_padded? h hs
    right
    rw [hrun] at ih
    obtain hmore | ⟨u, d, hmore, hd⟩ : more = [] ∨ ∃ t c, more = t ++ [c] ∧ isBlank c = true :=
      ih hrest
    · exact ⟨t, c, by rw [hmore, List.append_nil], hc⟩
    · exact ⟨t ++ [c] ++ u, d, by rw [hmore, ← List.append_assoc], hd⟩

/-- A run of padded parentheses has a blank at one of its ends. -/
theorem length_trim_paddedRun_lt (h : padded? s = some (front, rest)) :
    (trim (front ++ (paddedRun rest).1)).length < (front ++ (paddedRun rest).1).length := by
  cases hs : s.head?.any isBlank with
  | false =>
    obtain ⟨⟨t, c, rfl, hc⟩, hrest⟩ := ends_of_padded? h hs
    obtain hrun | ⟨u, d, hrun, hd⟩ := ends_of_paddedRun hrest
    · rw [hrun, List.append_nil]
      exact (length_trim_lt hc t).2
    · rw [hrun, ← List.append_assoc]
      exact (length_trim_lt hd _).2
  | true =>
    have hfront := eq_append_of_padded? h
    have hlt := length_rest_of_padded? h
    cases front with
    | nil => exact (hlt.ne (congrArg List.length hfront).symm).elim
    | cons c front =>
      have hc : isBlank c = true := by simpa [hfront] using hs
      exact (length_trim_lt hc _).1

theorem length_tighten_lt (h : padded? s = some (front, rest))
    (hrest : (tighten (paddedRun rest).2).length ≤ (paddedRun rest).2.length) :
    (tighten s).length < s.length := by
  have htrim := length_trim_paddedRun_lt h
  have hs := congrArg List.length (eq_append_of_padded? h)
  have hrun := congrArg List.length (paddedRun_append rest)
  rw [tighten_of_some h]
  simp only [List.length_append] at htrim hs hrun ⊢
  omega

/-- A text keeps its parentheses as they are, or gets shorter. -/
theorem tighten_eq_self_or (s : Text) : tighten s = s ∨ (tighten s).length < s.length := by
  fun_induction tighten s with
  | case1 s front rest h hlt hle run ih =>
    have hrest := ih.elim (fun h => (congrArg List.length h).le) Nat.le_of_lt
    have hlt := length_tighten_lt h hrest
    rw [tighten_of_some h] at hlt
    exact Or.inr hlt
  | case2 => exact Or.inl rfl
  | case3 c t h ih => exact ih.imp (congrArg (c :: ·)) Nat.succ_lt_succ

theorem length_tighten_le (s : Text) : (tighten s).length ≤ s.length :=
  (tighten_eq_self_or s).elim (fun h => (congrArg List.length h).le) Nat.le_of_lt

theorem tighten_cons_eq_self_iff :
    tighten (c :: s) = c :: s ↔ tighten s = s ∧ padded? (c :: s) = none := by
  cases h : padded? (c :: s) with
  | none =>
    rw [tighten_cons_of_none h]
    simp
  | some p =>
    refine iff_of_false (fun hself => ?_) (by simp)
    have hlt := length_tighten_lt h (length_tighten_le _)
    rw [hself] at hlt
    exact hlt.false

/-- Where no blanks stand beside each other, only the next character decides. -/
theorem padded?_eq_none_iff (hs : isBlank c = true → s.head?.any isBlank = false) :
    padded? (c :: s) = none ↔
      ∀ d ∈ s.head?, (isBlank c = true → d ≠ ')') ∧ (c = '(' → isBlank d = false) := by
  cases s with
  | nil => simp [padded?]
  | cons d s =>
    by_cases hopen : c = '('
    · subst hopen
      have hblank : isBlank '(' = false := by decide
      cases hd : isBlank d <;> simp [padded?, hd, hblank]
    · by_cases hc : isBlank c = true
      · have hd : isBlank d = false := by simpa using hs hc
        by_cases hclose : d = ')'
        · subst hclose
          simp [padded?, hopen, hc, hd]
        · have hdrop : (d :: s).dropWhile isBlank = d :: s :=
            List.dropWhile_cons_of_neg (by simp [hd])
          simp only [padded?, hopen, hc, hdrop]
          simp [hclose]
      · simp [padded?, hopen, hc]

/-- No line feed, no blanks beside each other, and none inside parentheses at either end. -/
structure IsSettled (s : Text) : Prop where
  oneLine : '\n' ∉ s
  behindBlank : ∀ c d, [c, d] <:+: s → isBlank c = true → isBlank d = false ∧ d ≠ ')'
  behindOpen : ∀ d, ['(', d] <:+: s → isBlank d = false

theorem isSettled_cons_iff : IsSettled (c :: s) ↔ IsSettled s ∧ c ≠ '\n' ∧
    ∀ d ∈ s.head?, (isBlank c = true → isBlank d = false ∧ d ≠ ')') ∧
      (c = '(' → isBlank d = false) := by
  constructor
  · rintro ⟨hline, hblank, hopen⟩
    rw [List.mem_cons, not_or] at hline
    refine ⟨⟨hline.2, fun x y h => ?_, fun y h => ?_⟩, fun h => hline.1 h.symm, fun d hd => ⟨?_, ?_⟩⟩
    · exact hblank x y (Lists.pair_isInfix_cons_iff.mpr (Or.inr h))
    · exact hopen y (Lists.pair_isInfix_cons_iff.mpr (Or.inr h))
    · exact hblank c d (Lists.pair_isInfix_cons_iff.mpr (Or.inl ⟨rfl, hd⟩))
    · rintro rfl
      exact hopen d (Lists.pair_isInfix_cons_iff.mpr (Or.inl ⟨rfl, hd⟩))
  · rintro ⟨⟨hline, hblank, hopen⟩, hc, hnext⟩
    refine ⟨?_, fun x y h => ?_, fun y h => ?_⟩
    · rw [List.mem_cons, not_or]
      exact ⟨fun h => hc h.symm, hline⟩
    · obtain ⟨rfl, hy⟩ | h := Lists.pair_isInfix_cons_iff.mp h
      · exact (hnext y hy).1
      · exact hblank x y h
    · obtain ⟨rfl, hy⟩ | h := Lists.pair_isInfix_cons_iff.mp h
      · exact (hnext y hy).2 rfl
      · exact hopen y h

theorem isSettled_iff : IsSettled s ↔ squeeze s = s ∧ tighten s = s := by
  induction s with
  | nil =>
    refine iff_of_true ⟨by simp, ?_, ?_⟩ ⟨by rw [squeeze], tighten_nil⟩
    · intro c d h
      simp at h
    · intro d h
      simp at h
  | cons c s ih =>
    rw [isSettled_cons_iff, squeeze_cons_eq_self_iff, tighten_cons_eq_self_iff, ih]
    constructor
    · rintro ⟨⟨hsqueeze, htighten⟩, hline, hnext⟩
      have hs : isBlank c = true → s.head?.any isBlank = false := by
        intro hc
        cases s with
        | nil => rfl
        | cons d s => exact ((hnext d rfl).1 hc).1
      refine ⟨⟨hsqueeze, hline, hs⟩, htighten, (padded?_eq_none_iff hs).mpr fun d hd => ?_⟩
      exact ⟨fun hc => ((hnext d hd).1 hc).2, (hnext d hd).2⟩
    · rintro ⟨⟨hsqueeze, hline, hs⟩, htighten, hnone⟩
      refine ⟨⟨hsqueeze, htighten⟩, hline, fun d hd => ?_⟩
      obtain ⟨hclose, hopen⟩ := (padded?_eq_none_iff hs).mp hnone d hd
      refine ⟨fun hc => ⟨?_, hclose hc⟩, hopen⟩
      have hblank := hs hc
      rwa [Option.mem_def.mp hd] at hblank

/-- A text is settled exactly if its blanks are in order already. -/
theorem tidy_eq_self_iff : tidy s = s ↔ IsSettled s := by
  rw [isSettled_iff]
  constructor
  · intro h
    have htighten : tighten (squeeze s) = squeeze s := by
      refine (tighten_eq_self_or (squeeze s)).resolve_right fun hlt => ?_
      have hlen : (tighten (squeeze s)).length = s.length := congrArg List.length h
      have hle := length_squeeze_le s
      omega
    have hsqueeze : squeeze s = s := htighten.symm.trans h
    exact ⟨hsqueeze, by rwa [hsqueeze] at htighten⟩
  · rintro ⟨hsqueeze, htighten⟩
    rw [tidy, hsqueeze, htighten]

/-- Pairs of texts, one behind the other, and the text behind the last. -/
def joined (xs : List (Text × Text)) (tail : Text) : Text := xs.flatMap (fun x => x.1 ++ x.2) ++ tail

/-- A text between double quotes. -/
def IsQuoted (q : Text) : Prop := ∃ t, q = '"' :: (t ++ ['"'])

theorem isFirm_quote : IsFirm '"' := by
  refine ⟨?_, ?_, ?_⟩ <;> decide

theorem tidy_nil : tidy [] = [] := by
  rw [tidy, squeeze, tighten_nil]

theorem tidy_quoted (a t b : Text) :
    tidy (a ++ ('"' :: (t ++ ['"']) ++ b)) = tidy a ++ (tidy ('"' :: (t ++ ['"'])) ++ tidy b) := by
  have hquoted (b : Text) : tidy ('"' :: (t ++ '"' :: b)) = '"' :: (tidy t ++ '"' :: tidy b) := by
    have hfirst := tidy_append_cons isFirm_quote [] (t ++ '"' :: b)
    rwa [List.nil_append, tidy_nil, List.nil_append, tidy_append_cons isFirm_quote t b] at hfirst
  have hlast := hquoted []
  rw [tidy_nil] at hlast
  rw [hlast]
  have happend : a ++ ('"' :: (t ++ ['"']) ++ b) = a ++ '"' :: (t ++ '"' :: b) := by simp
  rw [happend, tidy_append_cons isFirm_quote, tidy_append_cons isFirm_quote]
  simp

/-- Quoted texts and what stands between them are put in order one by one. -/
theorem tidy_joined (xs : List (Text × Text)) (hxs : ∀ x ∈ xs, IsQuoted x.2) (tail : Text) :
    tidy (joined xs tail) = joined (xs.map fun x => (tidy x.1, tidy x.2)) (tidy tail) := by
  induction xs with
  | nil => rfl
  | cons x xs ih =>
    obtain ⟨⟨t, ht⟩, hxs⟩ := List.forall_mem_cons.mp hxs
    have hcons (x : Text × Text) (xs : List (Text × Text)) (tail : Text) :
        joined (x :: xs) tail = x.1 ++ (x.2 ++ joined xs tail) := by simp [joined]
    rw [hcons, ht, tidy_quoted, ih hxs, List.map_cons, hcons, ht]

/-- A last semicolon goes with the blanks around it. -/
theorem dropSemicolon_spec (s : Text) :
    (∃ gap gap', s = dropSemicolon s ++ (gap ++ ';' :: gap') ∧ (∀ c ∈ gap ++ gap', isBlank c = true) ∧
      trimEnd (dropSemicolon s) = dropSemicolon s) ∨
      (dropSemicolon s = s ∧ (trimEnd s).getLast? ≠ some ';') := by
  have hblank (s : Text) : ∀ c ∈ s.rtakeWhile isBlank, isBlank c = true :=
    fun _ => List.mem_rtakeWhile_imp
  unfold dropSemicolon
  split
  · next front hfront =>
    left
    have hcut : trimEnd s = front.reverse ++ [';'] := by
      rw [← List.reverse_reverse (trimEnd s), hfront, List.reverse_cons]
    refine ⟨front.reverse.rtakeWhile isBlank, s.rtakeWhile isBlank, ?_, ?_, ?_⟩
    · calc s
        _ = trimEnd s ++ s.rtakeWhile isBlank := (trimEnd_append_rtakeWhile s).symm
        _ = trimEnd front.reverse ++ front.reverse.rtakeWhile isBlank ++ [';'] ++
            s.rtakeWhile isBlank := by rw [hcut, trimEnd_append_rtakeWhile]
        _ = _ := by simp
    · exact List.forall_mem_append.mpr ⟨hblank _, hblank _⟩
    · exact trimEnd_eq_self_of_isSuffix List.suffix_rfl
  · next hfront =>
    refine Or.inr ⟨rfl, fun hlast => ?_⟩
    rw [← List.head?_reverse] at hlast
    obtain ⟨front, h⟩ := List.head?_eq_some_iff.mp hlast
    exact hfront front h

/-- The clause of a sequence is the text behind the `ADD` of its header without the last semicolon.
Around quoted identifiers only blanks are changed, and so they are inside them: an identifier is kept
as it is exactly if it is settled. -/
theorem identity?_of_sequence {c : Classified} (h : Classified.ofStatement? s = some c)
    (hkind : c.kind = .sequence) :
    ∃ header text clause, Prefers Heading.columnAddition c.definition header text ∧
      identity? c.definition = some clause ∧
      ((∃ gap gap', text = dropSemicolon text ++ (gap ++ ';' :: gap') ∧
          (∀ d ∈ gap ++ gap', isBlank d = true) ∧
          trimEnd (dropSemicolon text) = dropSemicolon text) ∨
        (dropSemicolon text = text ∧ (trimEnd text).getLast? ≠ some ';')) ∧
      withoutBlanks clause = withoutBlanks (dropSemicolon text) ∧
      ∀ xs tail, (∀ x ∈ xs, IsQuoted x.2) → dropSemicolon text = joined xs tail →
        ∃ ys tail', clause = joined ys tail' ∧ withoutBlanks tail' = withoutBlanks tail ∧
          List.Forall₂ (fun x y => withoutBlanks y.1 = withoutBlanks x.1 ∧
            withoutBlanks y.2 = withoutBlanks x.2 ∧ (y.2 = x.2 ↔ IsSettled x.2)) xs ys := by
  obtain ⟨rest, more, hreads⟩ := (Classified.decides_of_ofStatement? h).reads
  rw [hkind] at hreads
  have hne : Heading.columnAddition c.definition ≠ [] := by
    intro hnil
    have hsequence : Kind.heading .sequence c.definition = [] := bind_eq_nil hnil
    rw [hsequence] at hreads
    cases hreads
  obtain ⟨⟨header, text⟩, others, hheader⟩ := List.exists_cons_of_ne_nil hne
  have hread : Prefers Heading.columnAddition c.definition header text := by
    rw [Prefers, hheader]
    rfl
  refine ⟨header, text, tidy (dropSemicolon text), hread, ?_, dropSemicolon_spec text,
    withoutBlanks_tidy _, fun xs tail hxs htext => ?_⟩
  · rw [identity?, search_of_prefers hread]
    rfl
  · refine ⟨xs.map fun x => (tidy x.1, tidy x.2), tidy tail, ?_, withoutBlanks_tidy tail, ?_⟩
    · rw [htext, tidy_joined xs hxs]
    · rw [List.forall₂_map_right_iff, List.forall₂_same]
      exact fun x _ => ⟨withoutBlanks_tidy _, withoutBlanks_tidy _, tidy_eq_self_iff⟩

theorem identity?_of_sequence_quoted_names :
    let definition := ("ALTER TABLE t ALTER a ADD GENERATED ALWAYS AS IDENTITY (\n" ++
      "    SEQUENCE NAME \"A \"\" b\".\"s (1)\"\n    START WITH 1\n) ;\n").toList
    let c : Classified :=
      { kind := .sequence
        heading :=
          { schema := "public".toList
            name := some "\"A \"\" b\".\"s (1)\"".toList
            table := some "t".toList
            column := some "a".toList }
        definition := definition
        residual := "-- s\n".toList }
    let text := definition.drop "ALTER TABLE t ALTER a ADD ".length
    let clause := ("GENERATED ALWAYS AS IDENTITY (SEQUENCE NAME " ++
      "\"A \"\" b\".\"s (1)\" START WITH 1)").toList
    let xs := [("GENERATED ALWAYS AS IDENTITY (\n    SEQUENCE NAME ".toList,
      "\"A \"\" b\"".toList), (".".toList, "\"s (1)\"".toList)]
    let tail := "\n    START WITH 1\n)".toList
    Classified.ofStatement? ("-- s\n".toList ++ definition) = some c ∧
      identity? c.definition = some clause ∧ dropSemicolon text = joined xs tail ∧
      (∀ x ∈ xs, IsQuoted x.2 ∧ IsSettled x.2) ∧
      ∃ ys tail', clause = joined ys tail' ∧ withoutBlanks tail' = withoutBlanks tail ∧
        List.Forall₂ (fun x y => withoutBlanks y.1 = withoutBlanks x.1 ∧ y.2 = x.2) xs ys := by
  intro definition c text clause xs tail
  have hs : Classified.ofStatement? ("-- s\n".toList ++ definition) = some c := by decide +kernel
  have hclause : identity? c.definition = some clause := by decide +kernel
  have hfirst : (Heading.columnAddition c.definition).head?.map Prod.snd = some text := by
    decide +kernel
  have hdrop : dropSemicolon text = joined xs tail := by decide +kernel
  have hquoted : ∀ x ∈ xs, IsQuoted x.2 := by
    simp only [xs, List.forall_mem_cons]
    exact ⟨⟨"A \"\" b".toList, rfl⟩, ⟨"s (1)".toList, rfl⟩, nofun⟩
  have hsettled : ∀ x ∈ xs, IsSettled x.2 := by
    have htidy : ∀ x ∈ xs, tidy x.2 = x.2 := by decide +kernel
    exact fun x hx => tidy_eq_self_iff.mp (htidy x hx)
  obtain ⟨header, text', clause', hread, hclause', -, -, hkept⟩ := identity?_of_sequence hs rfl
  obtain rfl := Option.some.inj (hclause'.symm.trans hclause)
  rw [hread] at hfirst
  obtain rfl : text' = text := Option.some.inj hfirst
  obtain ⟨ys, tail', hjoined, htail, hall⟩ := hkept xs tail hquoted hdrop
  refine ⟨hs, hclause, hdrop, fun x hx => ⟨hquoted x hx, hsettled x hx⟩, ys, tail', hjoined, htail,
    ?_⟩
  refine ((List.forall₂_and_left xs ys).mpr ⟨hsettled, hall⟩).imp ?_
  rintro x y ⟨hsettled, hbefore, -, hkept⟩
  exact ⟨hbefore, hkept.mpr hsettled⟩

/-- Two blanks in the name of the sequence become one. -/
theorem name_loses_blank :
    let s := "ALTER TABLE t ALTER a ADD GENERATED ALWAYS AS IDENTITY (SEQUENCE NAME \"s  1\");".toList
    let text := "GENERATED ALWAYS AS IDENTITY (SEQUENCE NAME \"s  1\");".toList
    let clause := "GENERATED ALWAYS AS IDENTITY (SEQUENCE NAME \"s 1\")".toList
    ((Classified.ofStatement? s).map fun c => (c.kind, c.heading.name, c.definition)) =
        some (.sequence, some "public.\"s  1\"".toList, s) ∧
      (Heading.columnAddition s).head?.map Prod.snd = some text ∧
      identity? s = some clause ∧ IsQuoted "\"s  1\"".toList ∧
      "\"s  1\"".toList <:+: text ∧ ¬ "\"s  1\"".toList <:+: clause := by
  intro s text clause
  refine ⟨?_, ?_, ?_, ⟨"s  1".toList, rfl⟩, ?_, ?_⟩ <;> decide +kernel

end Clause
end SchemaDump
