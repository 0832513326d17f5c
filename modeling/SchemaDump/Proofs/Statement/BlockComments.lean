import SchemaDump.Proofs.Statement.Split

/-! Block comments. They do not nest. But the mark of an opener is read inside them as well, and it
takes the star of a closer that stands right behind its slash. -/
namespace SchemaDump

/-- The marks inside a block comment. -/
theorem Mode.eq_of_afterMark?_blockComment {c d : Char} {n : Mode}
    (h : Mode.afterMark? .blockComment c d = some n) :
    c = '/' ∧ d = '*' ∧ n = .blockComment ∨ c = '*' ∧ d = '/' ∧ n = .code := by
  unfold Mode.afterMark? at h
  split at h <;> simp_all

namespace Statement

open Piece

variable {separator s u x t : Text} {c d : Char} {n : Nat} {l : Loop}

/-- The text `s` inside a comment is `x` up to its closer and `t` behind it. The closer is the first
star with a slash behind it and none before. -/
structure FirstCloser (s x t : Text) : Prop where
  eq_append : s = x ++ '*' :: '/' :: t
  uncovered : x.getLast? ≠ some '/'
  covered : ∀ y z, x = y ++ '*' :: '/' :: z → y.getLast? = some '/'

namespace FirstCloser

theorem covered_iff : (∀ y z, x = y ++ '*' :: '/' :: z → y.getLast? = some '/') ↔
    ∀ n ≤ x.length, ['*', '/'] <+: x.drop n → (x.take n).getLast? = some '/' := by
  constructor
  · rintro h n - ⟨z, hz⟩
    refine h (x.take n) z ?_
    calc x = x.take n ++ x.drop n := (List.take_append_drop n x).symm
      _ = x.take n ++ '*' :: '/' :: z := by rw [← hz]; rfl
  · rintro h y z rfl
    simpa using h y.length (by simp) (by simp)

instance (s x t : Text) : Decidable (FirstCloser s x t) :=
  decidable_of_iff (s = x ++ '*' :: '/' :: t ∧ x.getLast? ≠ some '/' ∧
      ∀ n ≤ x.length, ['*', '/'] <+: x.drop n → (x.take n).getLast? = some '/')
    ⟨fun h => ⟨h.1, h.2.1, covered_iff.mpr h.2.2⟩,
      fun h => ⟨h.eq_append, h.uncovered, covered_iff.mp h.covered⟩⟩

theorem nil (t : Text) : FirstCloser ('*' :: '/' :: t) [] t where
  eq_append := rfl
  uncovered := nofun
  covered y z h := by simp at h

theorem eq_nil (h : FirstCloser ('*' :: '/' :: u) x t) : x = [] ∧ t = u := by
  have heq := h.eq_append
  match x with
  | [] => simpa [eq_comm] using heq
  | [a] => simp at heq
  | a :: b :: x =>
    obtain ⟨rfl, rfl, -⟩ : '*' = a ∧ '/' = b ∧ u = x ++ '*' :: '/' :: t := by simpa using heq
    simpa using h.covered [] x rfl

/-- A character that begins no mark stands alone. -/
theorem cons_iff (h : ∀ e v, u = e :: v → Mode.afterMark? .blockComment d e = none) :
    FirstCloser (d :: u) x t ↔ ∃ x', x = d :: x' ∧ FirstCloser u x' t := by
  constructor
  · rintro ⟨heq, hlast, hcovered⟩
    cases x with
    | nil =>
      obtain ⟨rfl, rfl⟩ := List.cons.inj heq
      cases h '/' t rfl
    | cons a x =>
      obtain ⟨rfl, rfl⟩ := List.cons.inj heq
      refine ⟨x, rfl, rfl, fun hx => hlast ?_, fun y z hyz => ?_⟩
      · simp [List.getLast?_cons, hx]
      · have hy := hcovered (d :: y) z (by simp [hyz])
        cases y with
        | nil =>
          obtain rfl : d = '/' := by simpa using hy
          subst hyz
          cases h '*' _ rfl
        | cons b y => rwa [List.getLast?_cons_cons] at hy
  · rintro ⟨x, rfl, rfl, hlast, hcovered⟩
    refine ⟨rfl, fun hx => ?_, fun y z hyz => ?_⟩
    · cases x with
      | nil =>
        obtain rfl : d = '/' := by simpa using hx
        cases h '*' _ rfl
      | cons b x =>
        rw [List.getLast?_cons_cons] at hx
        exact hlast hx
    · cases y with
      | nil =>
        obtain ⟨rfl, rfl⟩ := List.cons.inj hyz
        cases h '/' _ rfl
      | cons b y =>
        obtain ⟨rfl, hx⟩ := List.cons.inj hyz
        simp [List.getLast?_cons, hcovered y z hx]

/-- An opener takes its star with it. -/
theorem opener_iff : FirstCloser ('/' :: '*' :: u) x t ↔
    ∃ x', x = '/' :: '*' :: x' ∧ FirstCloser u x' t := by
  constructor
  · rintro ⟨heq, hlast, hcovered⟩
    match x with
    | [] => simp at heq
    | [a] =>
      obtain ⟨rfl, -⟩ := List.cons.inj heq
      exact (hlast rfl).elim
    | a :: b :: x =>
      obtain ⟨rfl, rfl, hu⟩ : '/' = a ∧ '*' = b ∧ u = x ++ '*' :: '/' :: t := by simpa using heq
      refine ⟨x, rfl, hu, fun hx => hlast ?_, fun y z hyz => ?_⟩
      · simp [List.getLast?_cons, hx]
      · have hy := hcovered ('/' :: '*' :: y) z (by simp [hyz])
        cases y with
        | nil => simp at hy
        | cons e y => rwa [List.getLast?_cons_cons, List.getLast?_cons_cons] at hy
  · rintro ⟨x, rfl, rfl, hlast, hcovered⟩
    refine ⟨rfl, fun hx => ?_, fun y z hyz => ?_⟩
    · cases x with
      | nil => simp at hx
      | cons e x =>
        rw [List.getLast?_cons_cons, List.getLast?_cons_cons] at hx
        exact hlast hx
    · match y with
      | [] => simp at hyz
      | [a] =>
        obtain ⟨rfl, -⟩ := List.cons.inj hyz
        rfl
      | a :: b :: y =>
        obtain ⟨rfl, rfl, hx⟩ : '/' = a ∧ '*' = b ∧ x = y ++ '*' :: '/' :: z := by simpa using hyz
        simp [List.getLast?_cons, hcovered y z hx]

/-- The first star with a slash behind it closes the comment unless it has a slash before it. -/
theorem iff_of_not_isInfix (hs : s = x ++ '*' :: '/' :: t) (hx : ¬ ['*', '/'] <:+: x) :
    FirstCloser s x t ↔ x.getLast? ≠ some '/' := by
  refine ⟨FirstCloser.uncovered, fun hlast => ⟨hs, hlast, fun y z hyz => ?_⟩⟩
  exact (hx ⟨y, z, by simp [hyz]⟩).elim

end FirstCloser

namespace Loop

theorem rest_step_isSuffix (separator : Text) (l : Loop) : (l.step separator).rest <:+ l.rest := by
  unfold step
  split
  · exact List.suffix_rfl
  · dsimp only
    split_ifs <;> exact List.drop_suffix _ _

theorem rest_iterate_isSuffix (separator : Text) (l : Loop) (n : Nat) :
    ((step separator)^[n] l).rest <:+ l.rest := by
  induction n with
  | zero => exact List.suffix_rfl
  | succ n ih =>
    rw [Function.iterate_succ_apply']
    exact (rest_step_isSuffix separator _).trans ih

theorem step_of_rest_eq_nil (hr : l.rest = []) : l.step separator = l := by
  simp [step, hr]

/-- A round inside a comment takes the closer, or text before the closer. -/
theorem step_blockComment (separator : Text) (hf : l.flags = .ofMode .blockComment)
    (hd : '$' ∉ l.rest) (hr : l.rest ≠ []) :
    (∃ u, l.rest = '*' :: '/' :: u ∧ l.step separator =
      { l with flags := .ofMode .code, sofar := l.sofar ++ ['*', '/'], rest := u }) ∨
    ∃ front u, l.rest = front ++ u ∧ front ≠ [] ∧
      l.step separator = { l with sofar := l.sofar ++ front, rest := u } ∧
      ∀ x t, FirstCloser l.rest x t ↔ ∃ x', x = front ++ x' ∧ FirstCloser u x' t := by
  obtain ⟨c, s, hrest⟩ := List.exists_cons_of_ne_nil hr
  obtain ⟨d, u, n, rfl, hmark⟩ | hno := mark_or_noMark .blockComment c s
  · have hstep : l.step separator = l.take 2 (.ofMode n) := step_mark hf hrest hmark
    obtain ⟨rfl, rfl, rfl⟩ | ⟨rfl, rfl, rfl⟩ := Mode.eq_of_afterMark?_blockComment hmark
    · right
      refine ⟨['/', '*'], u, hrest, List.cons_ne_nil _ _, ?_, fun x t => ?_⟩
      · rw [hstep]
        simp [take, hf, hrest]
      · rw [hrest]
        exact FirstCloser.opener_iff
    · left
      refine ⟨u, hrest, ?_⟩
      rw [hstep]
      simp [take, hrest]
  · right
    have hc : c ≠ '$' := by
      rintro rfl
      simp [hrest] at hd
    have hstep : l.step separator = l.take 1 (.ofMode (Mode.after .blockComment c)) :=
      step_comment hf hrest hc hno rfl
    refine ⟨[c], s, hrest, List.cons_ne_nil c [], ?_, fun x t => ?_⟩
    · rw [hstep]
      simp [take, hf, hrest, Mode.after_blockComment]
    · rw [hrest]
      refine FirstCloser.cons_iff fun e v hs => ?_
      subst hs
      exact hno.afterMark?_eq_none

/-- From inside a comment the loop comes to the closer, and is in the comment up to there. -/
theorem exists_iterate_closer (separator : Text) (hf : l.flags = .ofMode .blockComment)
    (hd : '$' ∉ l.rest) (hc : FirstCloser l.rest x t) :
    ∃ k, (step separator)^[k] l =
        { l with flags := .ofMode .code, sofar := l.sofar ++ (x ++ ['*', '/']), rest := t } ∧
      ∀ j < k, ((step separator)^[j] l).flags = .ofMode .blockComment := by
  generalize hn : l.rest.length = n
  induction n using Nat.strong_induction_on generalizing l x with
  | _ n ih =>
    have hr : l.rest ≠ [] := by
      rw [hc.eq_append]
      simp
    obtain ⟨u, hrest, hstep⟩ | ⟨front, u, hrest, hne, hstep, hiff⟩ :=
      step_blockComment separator hf hd hr
    · obtain ⟨rfl, rfl⟩ := FirstCloser.eq_nil (hrest ▸ hc)
      refine ⟨1, by rw [Function.iterate_one, hstep, List.nil_append], fun j hj => ?_⟩
      obtain rfl := Nat.lt_one_iff.mp hj
      exact hf
    · obtain ⟨x, rfl, hu⟩ := (hiff _ _).mp hc
      have hlen : u.length < n := by
        have hpos := List.length_pos_iff.mpr hne
        rw [← hn, hrest, List.length_append]
        omega
      have hdu : '$' ∉ u := fun hm => hd (hrest ▸ List.mem_append_right front hm)
      obtain ⟨k, hk, hinside⟩ := ih u.length hlen (l := l.step separator) (x := x)
        (by rw [hstep]; exact hf) (by rw [hstep]; exact hdu) (by rw [hstep]; exact hu)
        (by rw [hstep])
      refine ⟨k + 1, ?_, fun j hj => ?_⟩
      · rw [Function.iterate_succ_apply, hk, hstep]
        simp
      · cases j with
        | zero => exact hf
        | succ j =>
          rw [Function.iterate_succ_apply]
          exact hinside j (Nat.lt_of_succ_lt_succ hj)

/-- A comment that is never closed takes all the text. -/
theorem iterate_of_unclosed (separator : Text) (hf : l.flags = .ofMode .blockComment)
    (hd : '$' ∉ l.rest) (hc : ∀ x t, ¬ FirstCloser l.rest x t) (n : Nat) :
    ((step separator)^[n] l).found = l.found ∧
      ((step separator)^[n] l).sofar ++ ((step separator)^[n] l).rest = l.sofar ++ l.rest := by
  induction n generalizing l with
  | zero => exact ⟨rfl, rfl⟩
  | succ n ih =>
    rw [Function.iterate_succ_apply]
    by_cases hr : l.rest = []
    · rw [step_of_rest_eq_nil hr]
      exact ih hf hd hc
    obtain ⟨u, hrest, -⟩ | ⟨front, u, hrest, -, hstep, hiff⟩ := step_blockComment separator hf hd hr
    · exact (hc [] u (hrest ▸ FirstCloser.nil u)).elim
    · have hdu : '$' ∉ u := fun hm => hd (hrest ▸ List.mem_append_right front hm)
      have hcu : ∀ x t, ¬ FirstCloser u x t := fun x t hu => hc _ _ ((hiff _ _).mpr ⟨x, rfl, hu⟩)
      have hrun := ih (l := l.step separator) (by rw [hstep]; exact hf) (by rw [hstep]; exact hdu)
        (by rw [hstep]; exact hcu)
      rw [hstep] at hrun ⊢
      rw [hrun.1, hrun.2, hrest, List.append_assoc]
      exact ⟨rfl, rfl⟩

/-- The loop comes to `l` on the text `s`. -/
def Reached (separator s : Text) (l : Loop) : Prop := ∃ n, (step separator)^[n] (start s) = l

namespace Reached

theorem step (h : Reached separator s l) : Reached separator s (l.step separator) := by
  obtain ⟨n, rfl⟩ := h
  exact ⟨n + 1, Function.iterate_succ_apply' _ n (start s)⟩

theorem iterate (h : Reached separator s l) (n : Nat) :
    Reached separator s ((Loop.step separator)^[n] l) := by
  obtain ⟨m, rfl⟩ := h
  exact ⟨n + m, Function.iterate_add_apply _ n m (start s)⟩

theorem tracks (h : Reached separator s l) : Tracks separator s l := by
  obtain ⟨n, rfl⟩ := h
  exact tracks_iterate n

theorem rest_isSuffix (h : Reached separator s l) : l.rest <:+ s := by
  obtain ⟨n, rfl⟩ := h
  exact rest_iterate_isSuffix separator (start s) n

theorem split_of_unclosed (h : Reached separator s l) (hf : l.flags = .ofMode .blockComment)
    (hd : '$' ∉ l.rest) (hc : ∀ x t, ¬ FirstCloser l.rest x t) (hsofar : l.sofar ≠ []) :
    split separator s = l.found ++ [l.sofar ++ l.rest] := by
  have hlast := h.iterate l.rest.length
  have hend : ((Loop.step separator)^[l.rest.length] l).rest = [] :=
    List.eq_nil_of_length_eq_zero (by have := length_rest_iterate separator l l.rest.length; omega)
  obtain ⟨hfound, htext⟩ := iterate_of_unclosed separator hf hd hc l.rest.length
  rw [hend, List.append_nil] at htext
  rw [← hlast.tracks.statements_eq hend, statements, hfound, htext]
  simp [hsofar]

end Reached

theorem Tracks.found_isPrefix (h : Tracks separator s l) : l.found <+: split separator s := by
  obtain ⟨m, -, hs⟩ := h
  exact ⟨_, hs⟩

/-- The opener of a comment, in code. -/
theorem step_opener (separator : Text) (hf : l.flags = {}) (hr : l.rest = '/' :: '*' :: u) :
    l.step separator =
      { l with flags := .ofMode .blockComment, sofar := l.sofar ++ ['/', '*'], rest := u } := by
  rw [step_mark (m := .code) (n := .blockComment) hf hr rfl]
  simp [take, hr]

/-- A separator in code that is no quote and begins no comment. -/
theorem step_separator (hf : l.flags = {}) (hr : l.rest = c :: u)
    (hc : c ∉ ['$', '\x27', '"']) (hline : ¬ ['-', '-'] <+: c :: u)
    (hblock : ¬ ['/', '*'] <+: c :: u) :
    (l.step [c]).found = l.found ++ [l.sofar ++ [c]] := by
  simp only [List.mem_cons, List.not_mem_nil, or_false, not_or] at hc
  have hno : NoMark .code c (ofText u) := by
    intro d qs hu
    obtain ⟨v, rfl, -⟩ := exists_of_ofText_eq_plain hu
    unfold Mode.afterMark?
    split <;> simp_all
  have hcuts : Mode.cuts [c] .code c = true := by
    simp [Mode.cuts, Mode.isComment, Mode.after_code, hc]
  rw [step_plain (m := .code) hf hr hc.1 hno, if_pos hcuts]
  simp [cut, hr]

end Loop

open Loop

/-- A block comment that opens in code ends at the first star with a slash behind it and none
before, whatever stands between, and if there is none, at the end of the text. So the first star
with a slash behind it ends the comment unless it has a slash before it, too. In code a separator
ends the statement. -/
theorem blockComment_ends (hs : '$' ∉ s) (hl : Reached separator s l) (hf : l.flags = {})
    (hr : l.rest = '/' :: '*' :: u) :
    (∀ x t, FirstCloser u x t → ∃ k,
      (step separator)^[k] l =
        { l with flags := {}, sofar := l.sofar ++ '/' :: '*' :: (x ++ ['*', '/']), rest := t } ∧
      ∀ j, 0 < j → j < k → ((step separator)^[j] l).flags.blockComment = true) ∧
    ((∀ x t, ¬ FirstCloser u x t) → split separator s = l.found ++ [l.sofar ++ l.rest]) ∧
    (∀ x t, u = x ++ '*' :: '/' :: t → ¬ ['*', '/'] <:+: x →
      (FirstCloser u x t ↔ x.getLast? ≠ some '/')) ∧
    ∀ c l' v, separator = [c] → c ∉ ['\x27', '"'] → Reached separator s l' → l'.flags = {} →
      l'.rest = c :: v → ¬ ['-', '-'] <+: c :: v → ¬ ['/', '*'] <+: c :: v →
      l'.found ++ [l'.sofar ++ [c]] <+: split separator s := by
  have hd : '$' ∉ u := fun hm => hs (hl.rest_isSuffix.subset (by simp [hr, hm]))
  have hopen := step_opener separator hf hr
  have hflags : (l.step separator).flags = .ofMode .blockComment := by rw [hopen]
  have hrest : (l.step separator).rest = u := by rw [hopen]
  refine ⟨fun x t hc => ?_, fun hc => ?_, fun x t => FirstCloser.iff_of_not_isInfix, ?_⟩
  · obtain ⟨k, hk, hinside⟩ := exists_iterate_closer separator hflags (hrest ▸ hd) (hrest ▸ hc)
    refine ⟨k + 1, ?_, fun j hpos hj => ?_⟩
    · rw [Function.iterate_succ_apply, hk, hopen, List.append_assoc]
      rfl
    · obtain ⟨j, rfl⟩ := Nat.exists_eq_succ_of_ne_zero hpos.ne'
      rw [Function.iterate_succ_apply, hinside j (Nat.lt_of_succ_lt_succ hj)]
      rfl
  · have hsplit := hl.step.split_of_unclosed hflags (hrest ▸ hd) (hrest ▸ hc) (by simp [hopen])
    rw [hsplit, hopen, hr, List.append_assoc]
    rfl
  · rintro c l' v rfl hc hl' hf' hr' hline hblock
    have hdollar : c ≠ '$' := by
      rintro rfl
      exact hs (hl'.rest_isSuffix.subset (hr' ▸ List.mem_cons_self))
    rw [← step_separator hf' hr' (by simp_all) hline hblock]
    exact hl'.step.tracks.found_isPrefix

theorem blockComment_ends_behind_openers :
    let s := "SELECT 1 /*/*/ ; /* ' */, 2; x".toList
    let l := (step [';'])^[9] (start s)
    let u := "/*/ ; /* ' */, 2; x".toList
    let x := "/*/ ; /* ' ".toList
    '$' ∉ s ∧ Reached [';'] s l ∧ l.flags = {} ∧ l.rest = '/' :: '*' :: u ∧
      FirstCloser u x ", 2; x".toList ∧
      (∃ k, (step [';'])^[k] l =
        { sofar := "SELECT 1 /*/*/ ; /* ' */".toList, rest := ", 2; x".toList }) ∧
      ["SELECT 1 /*/*/ ; /* ' */, 2;".toList] <+: split [';'] s := by
  intro s l u x
  have hs : '$' ∉ s := by decide +kernel
  have hl : Reached [';'] s l := ⟨9, rfl⟩
  have hf : l.flags = {} := by decide +kernel
  have hr : l.rest = '/' :: '*' :: u := by decide +kernel
  have hc : FirstCloser u x ", 2; x".toList := by decide +kernel
  obtain ⟨hends, -, -, hcuts⟩ := blockComment_ends hs hl hf hr
  obtain ⟨k, hk, -⟩ := hends _ _ hc
  have hcode : l.found = [] ∧
      l.sofar ++ '/' :: '*' :: (x ++ ['*', '/']) = "SELECT 1 /*/*/ ; /* ' */".toList := by
    decide +kernel
  -- the round that comes to the semicolon behind the comment
  have hseparator : ((step [';'])^[23] (start s)).flags = {} ∧
      ((step [';'])^[23] (start s)).rest = ';' :: " x".toList := by decide +kernel
  have hcut := hcuts ';' ((step [';'])^[23] (start s)) " x".toList rfl (by decide) ⟨23, rfl⟩
    hseparator.1 hseparator.2 (by decide) (by decide)
  have hfound : ((step [';'])^[23] (start s)).found ++ [((step [';'])^[23] (start s)).sofar ++ [';']]
      = ["SELECT 1 /*/*/ ; /* ' */, 2;".toList] := by decide +kernel
  rw [hfound] at hcut
  exact ⟨hs, hl, hf, hr, hc, ⟨k, by rw [hk, hcode.1, hcode.2]⟩, hcut⟩

/-- The first star with a slash behind it does not end this comment, nor the semicolon behind it the
statement. -/
theorem first_closer_is_covered :
    let s := "SELECT 1 /* a /*/; SELECT 2;".toList
    let l := (step [';'])^[9] (start s)
    let x := " a /".toList
    let t := "; SELECT 2;".toList
    '$' ∉ s ∧ l.flags = {} ∧ l.rest = '/' :: '*' :: (x ++ '*' :: '/' :: t) ∧
      ¬ ['*', '/'] <:+: x ∧ ((step [';'])^[6] l).rest = t ∧
      ((step [';'])^[6] l).flags.blockComment = true ∧ split [';'] s = [s] := by
  intro s l x t
  refine ⟨?_, ?_, ?_, ?_, ?_, ?_, ?_⟩ <;> decide +kernel

end Statement
end SchemaDump
