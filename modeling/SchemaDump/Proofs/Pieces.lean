import SchemaDump.Statement
import Mathlib.Data.List.TakeWhile

/-! The pieces of a text, told without the scanner's lengths. No piece looks past its own end for
what it is, so a text that is cut between pieces keeps them. -/
namespace SchemaDump

namespace Text

variable {mark body rest s : Text} {n k : Nat}

/-- In `body ++ mark` the mark stands at the end and nowhere before. -/
def ClosesFirst (mark body : Text) : Prop :=
  ∀ pre post, body ++ mark = pre ++ mark ++ post → post = []

theorem closesFirst_nil : ClosesFirst mark [] := by
  intro pre post h
  have := congrArg List.length h
  simp only [List.nil_append, List.length_append] at this
  exact List.eq_nil_of_length_eq_zero (by omega)

theorem ClosesFirst.tail {x : Char} (h : ClosesFirst mark (x :: body)) : ClosesFirst mark body := by
  intro pre post he
  exact h (x :: pre) post (by simp [he])

theorem ClosesFirst.not_isPrefix {x : Char} (h : ClosesFirst mark (x :: body)) (rest : Text) :
    ¬ mark <+: x :: (body ++ mark ++ rest) := by
  intro hp
  have hp' : mark <+: x :: body ++ mark :=
    List.prefix_of_prefix_length_le hp ⟨rest, by simp⟩ (by simp; omega)
  obtain ⟨post, hpost⟩ := hp'
  have := h [] post (by simpa using hpost.symm)
  have hl := congrArg List.length hpost
  simp only [this, List.append_nil, List.cons_append, List.length_cons, List.length_append] at hl
  omega

theorem ClosesFirst.cons {x : Char} (h : ClosesFirst mark body)
    (hx : ¬ mark <+: x :: (body ++ mark ++ rest)) : ClosesFirst mark (x :: body) := by
  intro pre post he
  cases pre with
  | nil =>
    have hm : mark ++ post = x :: (body ++ mark) := by simpa using he.symm
    exact (hx ⟨post ++ rest, by simp [← List.append_assoc, hm]⟩).elim
  | cons y pre => exact h pre post (by simp_all)

theorem endOfFirst_of_closesFirst (h : ClosesFirst mark body) :
    endOfFirst mark n (body ++ mark ++ rest) = some (n + body.length + mark.length) := by
  induction body generalizing n with
  | nil =>
    cases hs : mark ++ rest with
    | nil => simp_all [endOfFirst]
    | cons x s =>
      have hp : mark <+: x :: s := ⟨rest, hs⟩
      simp [hs, endOfFirst, hp]
  | cons x body ih =>
    have hp := h.not_isPrefix rest
    simp only [List.append_assoc] at ih hp
    simp only [List.cons_append, List.append_assoc, endOfFirst, List.isPrefixOf_iff_prefix, hp,
      if_false, ih h.tail, List.length_cons]
    congr 1
    omega

theorem endOfFirst_eq_some (h : endOfFirst mark n s = some k) :
    ∃ body rest, s = body ++ mark ++ rest ∧ k = n + body.length + mark.length ∧
      ClosesFirst mark body := by
  induction s generalizing n with
  | nil =>
    have hm : mark = [] ∧ n = k := by simpa [endOfFirst] using h
    exact ⟨[], [], by simp [hm.1], by simp [hm.1, hm.2], closesFirst_nil⟩
  | cons x s ih =>
    simp only [endOfFirst, List.isPrefixOf_iff_prefix] at h
    split at h
    · next hp =>
      obtain ⟨rest, hr⟩ := hp
      simp only [Option.some.injEq] at h
      exact ⟨[], rest, by simp [hr], by simp [h], closesFirst_nil⟩
    · next hp =>
      obtain ⟨body, rest, rfl, hk, hf⟩ := ih h
      exact ⟨x :: body, rest, by simp, by simp only [hk, List.length_cons]; omega, hf.cons hp⟩

theorem endOfFirst_eq_none (h : endOfFirst mark n s = none) : ¬ mark <:+: s := by
  rintro ⟨pre, post, rfl⟩
  induction pre generalizing n with
  | nil =>
    cases hs : mark ++ post with
    | nil => simp_all [endOfFirst]
    | cons x s =>
      have hp : mark <+: x :: s := ⟨post, hs⟩
      simp [hs, endOfFirst, hp] at h
  | cons x pre ih =>
    simp only [List.cons_append, endOfFirst] at h
    split at h
    · simp at h
    · exact ih h

theorem endOfFirst_of_not_isInfix (h : ¬ mark <:+: s) : endOfFirst mark n s = none := by
  cases he : endOfFirst mark n s with
  | none => rfl
  | some k =>
    obtain ⟨body, rest, rfl, _, _⟩ := endOfFirst_eq_some he
    exact (h ⟨body, rest, rfl⟩).elim

end Text

namespace Piece

/-- A tag has nothing between its dollar signs, or a name. -/
inductive IsTag : Text → Prop
  | bare : IsTag ['$', '$']
  | named {c : Char} {name : Text} : startsTag c → (∀ d ∈ name, continuesTag d) →
      IsTag ('$' :: c :: (name ++ ['$']))

/-- A text begins with a piece, which leaves the rest. -/
inductive Starts : Text → Piece → Text → Prop
  | plain {c : Char} {s : Text} : c ≠ '$' → Starts (c :: s) (.plain c) s
  | quotation {tag body s : Text} : IsTag tag → Text.ClosesFirst tag body →
      Starts (tag ++ (body ++ tag ++ s)) (.dollar (tag ++ (body ++ tag))) s
  | openTag {tag s : Text} : IsTag tag → ¬ tag <:+: s → Starts (tag ++ s) (.dollar tag) s
  | sign {s : Text} : (∀ tag, IsTag tag → ¬ tag <+: '$' :: s) →
      Starts ('$' :: s) (.dollar ['$']) s

/-- A text is read as pieces from left to right. -/
inductive Reads : Text → List Piece → Prop
  | nil : Reads [] []
  | cons {s rest : Text} {p : Piece} {ps : List Piece} :
      Starts s p rest → Reads rest ps → Reads s (p :: ps)

variable {s t rest body tag : Text} {c : Char} {p : Piece} {ps qs : List Piece}

theorem IsTag.exists_tail (h : IsTag tag) : ∃ t, tag = '$' :: t := by
  cases h <;> exact ⟨_, rfl⟩

theorem startsTag_ne (h : startsTag c) : c ≠ '$' := by
  rintro rfl
  exact absurd h (by decide)

theorem tag?_eq_some (h : tag? s = some tag) : IsTag tag ∧ tag <+: '$' :: s := by
  unfold tag? at h
  split at h
  · cases h
    exact ⟨.bare, by simp⟩
  · next c t _ =>
    generalize hd : t.dropWhile continuesTag = u at h
    split at h
    · next hc =>
      split at h
      · next v =>
        cases h
        refine ⟨.named hc fun d hd => List.mem_takeWhile_imp hd, v, ?_⟩
        simp [← hd]
      · simp at h
    · simp at h
  · simp at h

theorem tag?_of_isTag (h : IsTag tag) (hp : tag <+: '$' :: s) : tag? s = some tag := by
  obtain ⟨t, ht⟩ := hp
  cases h with
  | bare =>
    obtain rfl : s = '$' :: t := by simpa using ht.symm
    simp [tag?]
  | @named c name hc hn =>
    obtain rfl : s = c :: (name ++ '$' :: t) := by simpa using ht.symm
    have hd : continuesTag '$' = false := by decide
    simp [tag?, startsTag_ne hc, hc, List.takeWhile_append_of_pos hn,
      List.dropWhile_append_of_pos hn, hd]

instance (tag : Text) : Decidable (IsTag tag) :=
  decidable_of_iff (tag? tag.tail = some tag)
    ⟨fun h => (tag?_eq_some h).1, fun h => by
      obtain ⟨t, rfl⟩ := h.exists_tail
      exact tag?_of_isTag h List.prefix_rfl⟩

theorem tag?_eq_none (h : tag? s = none) (ht : IsTag tag) : ¬ tag <+: '$' :: s := by
  intro hp
  simp [tag?_of_isTag ht hp] at h

theorem Starts.eq_append (h : Starts s p rest) : s = p.text ++ rest := by
  cases h <;> simp [text]

theorem Starts.text_ne_nil (h : Starts s p rest) : p.text ≠ [] := by
  cases h with
  | quotation htag _ | openTag htag _ =>
    obtain ⟨t, rfl⟩ := htag.exists_tail
    simp [text]
  | _ => simp [text]

theorem exists_starts (c : Char) (s : Text) : ∃ p rest, Starts (c :: s) p rest := by
  by_cases hc : c = '$'
  · subst hc
    cases ht : tag? s with
    | none => exact ⟨_, _, .sign fun _ => tag?_eq_none ht⟩
    | some tag =>
      obtain ⟨htag, u, hu⟩ := tag?_eq_some ht
      rw [← hu]
      cases he : Text.endOfFirst tag 0 u with
      | none => exact ⟨_, _, .openTag htag (Text.endOfFirst_eq_none he)⟩
      | some k =>
        obtain ⟨body, v, rfl, -, hb⟩ := Text.endOfFirst_eq_some he
        exact ⟨_, _, .quotation htag hb⟩
  · exact ⟨_, _, .plain hc⟩

theorem dollarLength_of_tag (h : IsTag ('$' :: t)) : dollarLength (t ++ s) =
    (Text.endOfFirst ('$' :: t) (t.length + 1) s).getD (t.length + 1) := by
  have ht : tag? (t ++ s) = some ('$' :: t) := tag?_of_isTag h ⟨s, by simp⟩
  simp [dollarLength, ht]

/-- The length of a piece that begins with a dollar sign settles the piece. -/
theorem first_of_dollarLength (h : dollarLength (t ++ s) = t.length + 1) :
    first '$' (t ++ s) = .dollar ('$' :: t) ∧ afterOne '$' (t ++ s) = s := by
  simp [first, afterOne, h]

theorem Starts.eq_first (h : Starts (c :: s) p rest) : p = first c s ∧ rest = afterOne c s := by
  generalize hs : c :: s = u at h
  cases h with
  | plain hc =>
    cases hs
    simp [first, afterOne, hc]
  | @quotation tag body v htag hb =>
    obtain ⟨t, rfl⟩ := htag.exists_tail
    simp only [List.cons_append, List.cons.injEq] at hs
    obtain ⟨rfl, rfl⟩ := hs
    have hl : dollarLength (t ++ (body ++ '$' :: t) ++ rest)
        = (t ++ (body ++ '$' :: t)).length + 1 := by
      rw [List.append_assoc, dollarLength_of_tag htag, Text.endOfFirst_of_closesFirst hb]
      simp
      omega
    have := first_of_dollarLength hl
    simp_all
  | @openTag tag v htag ho =>
    obtain ⟨t, rfl⟩ := htag.exists_tail
    simp only [List.cons_append, List.cons.injEq] at hs
    obtain ⟨rfl, rfl⟩ := hs
    have hl : dollarLength (t ++ rest) = t.length + 1 := by
      rw [dollarLength_of_tag htag, Text.endOfFirst_of_not_isInfix ho]
      rfl
    simpa [eq_comm] using first_of_dollarLength hl
  | sign hn =>
    cases hs
    have ht : tag? s = none := by
      cases ht : tag? s with
      | none => rfl
      | some tag => exact (hn tag (tag?_eq_some ht).1 (tag?_eq_some ht).2).elim
    simp [first, afterOne, dollarLength, ht]

theorem starts_first (c : Char) (s : Text) : Starts (c :: s) (first c s) (afterOne c s) := by
  obtain ⟨p, rest, h⟩ := exists_starts c s
  obtain ⟨rfl, rfl⟩ := h.eq_first
  exact h

/-- What a piece is does not hang on how much of the text that it leaves is there. -/
theorem Starts.shorten (h : Starts s p rest) (ht : t <+: rest) : Starts (p.text ++ t) p t := by
  cases h with
  | plain hc => exact .plain hc
  | quotation htag hb => simpa [text] using Starts.quotation (s := t) htag hb
  | openTag htag ho => exact .openTag htag fun hi => ho (hi.trans ht.isInfix)
  | sign hn =>
    refine .sign fun tag htag hp => hn tag htag (hp.trans ?_)
    simpa using ht

theorem dollarLength_pos (s : Text) : 0 < dollarLength s := by
  unfold dollarLength
  split
  · exact Nat.one_pos
  · next tag ht =>
    obtain ⟨t, rfl⟩ := (tag?_eq_some ht).1.exists_tail
    cases he : Text.endOfFirst ('$' :: t) ('$' :: t).length (s.drop (('$' :: t).length - 1)) with
    | none => simp
    | some k =>
      obtain ⟨-, -, -, rfl, -⟩ := Text.endOfFirst_eq_some he
      simp only [Option.getD_some, List.length_cons]
      omega

theorem first_dollar (s : Text) : first '$' s = .dollar (('$' :: s).take (dollarLength s)) := by
  simp [first, List.take_cons (dollarLength_pos s)]

theorem afterOne_dollar (s : Text) : afterOne '$' s = ('$' :: s).drop (dollarLength s) := by
  simp [afterOne, List.drop_cons (dollarLength_pos s)]

theorem readOnto_append (read ps : List Piece) (s : Text) :
    readOnto (read ++ ps) s = ps.reverse ++ readOnto read s := by
  induction read, s using readOnto.induct with
  | case1 read => simp [readOnto]
  | case2 read c s ih => simpa [readOnto] using ih

@[simp] theorem ofText_nil : ofText [] = [] := by
  simp [ofText, readOnto]

theorem ofText_cons (c : Char) (s : Text) : ofText (c :: s) = first c s :: ofText (afterOne c s) := by
  simpa [ofText, readOnto] using readOnto_append [] [first c s] (afterOne c s)

theorem Starts.ofText_eq (h : Starts s p rest) : ofText s = p :: ofText rest := by
  cases s with
  | nil =>
    have hs := h.eq_append
    exact (h.text_ne_nil (by simp_all)).elim
  | cons c s =>
    obtain ⟨rfl, rfl⟩ := h.eq_first
    exact ofText_cons c s

/-- Each text is read as pieces in exactly one way. -/
theorem reads_iff : Reads s ps ↔ ofText s = ps := by
  constructor
  · intro h
    induction h with
    | nil => exact ofText_nil
    | cons hp _ ih => rw [hp.ofText_eq, ih]
  · rintro rfl
    generalize hn : s.length = n
    induction n using Nat.strong_induction_on generalizing s with
    | _ n ih =>
      cases s with
      | nil => exact ofText_nil ▸ .nil
      | cons c s =>
        have hl : (afterOne c s).length < n := by
          rw [← hn]
          exact Nat.lt_succ_of_le (length_afterOne_le c s)
        rw [ofText_cons]
        exact .cons (starts_first c s) (ih _ hl rfl)

theorem exists_of_ofText_eq_plain (h : ofText s = .plain c :: ps) :
    ∃ t, s = c :: t ∧ ofText t = ps := by
  cases reads_iff.mpr h with
  | cons hp hr =>
    cases hp with
    | plain _ => exact ⟨_, rfl, reads_iff.mp hr⟩

/-- The text of pieces that follow each other. -/
def textOf (ps : List Piece) : Text := ps.flatMap text

@[simp] theorem textOf_nil : textOf [] = [] := rfl

@[simp] theorem textOf_cons (p : Piece) (ps : List Piece) :
    textOf (p :: ps) = p.text ++ textOf ps := List.flatMap_cons ..

@[simp] theorem textOf_append (ps qs : List Piece) :
    textOf (ps ++ qs) = textOf ps ++ textOf qs := List.flatMap_append

theorem Reads.textOf_eq (h : Reads s ps) : textOf ps = s := by
  induction h with
  | nil => rfl
  | cons hp _ ih => rw [textOf_cons, ih, hp.eq_append]

@[simp] theorem textOf_ofText (s : Text) : textOf (ofText s) = s :=
  (reads_iff.mpr rfl).textOf_eq

theorem Reads.append_left (h : Reads s (ps ++ qs)) : Reads (textOf ps) ps := by
  induction ps generalizing s with
  | nil => exact .nil
  | cons p ps ih =>
    cases h with
    | @cons _ rest _ _ hp h =>
      have ht : textOf ps <+: rest := ⟨textOf qs, by rw [← textOf_append]; exact h.textOf_eq⟩
      rw [textOf_cons]
      exact .cons (hp.shorten ht) (ih h)

theorem Reads.append_right (h : Reads s (ps ++ qs)) : Reads (textOf qs) qs := by
  induction ps generalizing s with
  | nil =>
    rw [List.nil_append] at h
    rwa [h.textOf_eq]
  | cons p ps ih =>
    cases h with
    | cons _ h => exact ih h

/-- A text cut between two of its pieces keeps the pieces on either side. -/
theorem ofText_textOf_of_append (h : ofText s = ps ++ qs) :
    ofText (textOf ps) = ps ∧ ofText (textOf qs) = qs := by
  have hr : Reads s (ps ++ qs) := reads_iff.mpr h
  exact ⟨reads_iff.mp hr.append_left, reads_iff.mp hr.append_right⟩

end Piece
end SchemaDump
