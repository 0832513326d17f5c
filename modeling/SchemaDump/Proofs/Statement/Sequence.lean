import SchemaDump.Proofs.Statement.Append

/-! Which texts follow each other as statements. Each is a statement alone, all but the last end in
a separator in code, and no tag left open in one is closed in a later one. A text is cut into such
texts, and it is cut into no others. -/
namespace SchemaDump.Statement

open Piece

variable {s x y : Text} {c : Char} {p : Piece} {ps qs : List Piece} {t : Token}
  {ts us vs : List Token} {k : Construct} {sofar : Text} {xs ys : List Text}

namespace Construct

/-- The first unit in an open construct. It is the same if something else follows, if it is a closer
or at least the next piece is the same. -/
theorem exists_unit (k : Construct) (p : Piece) (ps : List Piece) :
    ∃ u rest, u ++ rest = p :: ps ∧ u ≠ [] ∧ k.units (p :: ps) = u :: k.units rest ∧
      (k.isCloser u = true → ∀ qs, k.units (u ++ qs) = u :: k.units qs) ∧
      (∀ q more, rest = q :: more → ∀ qs, k.units (u ++ q :: qs) = u :: k.units (q :: qs)) := by
  cases k with
  | lineComment | string | quotedIdentifier =>
    exact ⟨[p], ps, rfl, by simp, rfl, fun _ _ => rfl, fun _ _ _ _ => rfl⟩
  | blockComment =>
    by_cases hopen : ∃ rest, p = .plain '/' ∧ ps = .plain '*' :: rest
    · obtain ⟨rest, rfl, rfl⟩ := hopen
      exact ⟨[.plain '/', .plain '*'], rest, rfl, by simp, rfl, fun _ _ => rfl, fun _ _ _ _ => rfl⟩
    by_cases hclose : ∃ rest, p = .plain '*' ∧ ps = .plain '/' :: rest
    · obtain ⟨rest, rfl, rfl⟩ := hclose
      exact ⟨[.plain '*', .plain '/'], rest, rfl, by simp, rfl, fun _ _ => rfl, fun _ _ _ _ => rfl⟩
    refine ⟨[p], ps, rfl, by simp, ?_, by simp [isCloser], ?_⟩
    · exact pairs.eq_3 p ps (fun rest hp hq => hopen ⟨rest, hp, hq⟩)
        (fun rest hp hq => hclose ⟨rest, hp, hq⟩)
    · rintro q more rfl qs
      refine pairs.eq_3 p (q :: qs) (fun rest hp hq => ?_) (fun rest hp hq => ?_)
      · exact hopen ⟨more, hp, by rw [(List.cons.inj hq).1]⟩
      · exact hclose ⟨more, hp, by rw [(List.cons.inj hq).1]⟩

theorem exists_body_cons (k : Construct) (p : Piece) (ps : List Piece) :
    ∃ more, k.body (p :: ps) = p :: more := by
  obtain ⟨u, rest, hrest, hu, hunits, -, -⟩ := k.exists_unit p ps
  obtain ⟨q, more, rfl⟩ := List.exists_cons_of_ne_nil hu
  obtain rfl : q = p := (List.cons.inj hrest).1
  rw [body_of_units hunits]
  split
  · exact ⟨more, rfl⟩
  · exact ⟨more ++ k.body rest, rfl⟩

/-- A construct that ends before the pieces do has its closer, and ends there whatever follows. -/
theorem body_append (h : k.after ps ≠ []) (qs : List Piece) :
    k.body (k.body ps ++ qs) = k.body ps ∧ k.after (k.body ps ++ qs) = qs := by
  -- unit by unit: one that does not close is read with regard to the piece behind it, so that the
  -- induction needs this piece to be the same
  generalize hn : ps.length = n
  induction n using Nat.strong_induction_on generalizing ps with
  | _ n ih =>
    cases ps with
    | nil => exact (h k.after_nil).elim
    | cons p ps =>
      obtain ⟨u, rest, hrest, hu, hunits, hcloser, hnext⟩ := k.exists_unit p ps
      have hafter := after_of_units hunits
      have hbody := body_of_units hunits
      cases hcl : k.isCloser u with
      | true =>
        rw [hcl, if_pos rfl] at hbody
        have hqs := hcloser hcl qs
        rw [hbody, body_of_units hqs, after_of_units hqs, hcl]
        exact ⟨rfl, rfl⟩
      | false =>
        rw [hcl, if_neg Bool.false_ne_true] at hafter hbody
        cases rest with
        | nil => exact (h (hafter.trans k.after_nil)).elim
        | cons q rest =>
          have hlt : (q :: rest).length < n := by
            rw [← hn, ← hrest, List.length_append]
            have := List.length_pos_iff.mpr hu
            omega
          obtain ⟨hb, ha⟩ := ih _ hlt (hafter ▸ h) rfl
          obtain ⟨more, hmore⟩ := k.exists_body_cons q rest
          have hqs := hnext q rest rfl (more ++ qs)
          rw [hmore, List.cons_append] at hb ha
          rw [hbody, hmore, List.append_assoc, List.cons_append, body_of_units hqs,
            after_of_units hqs, hcl, hb, ha]
          exact ⟨rfl, rfl⟩

theorem append_of_after (h : k.after ps ≠ []) (qs : List Piece) :
    k.body (ps ++ qs) = k.body ps ∧ k.after (ps ++ qs) = k.after ps ++ qs := by
  have happend := body_append h (k.after ps ++ qs)
  rwa [← List.append_assoc, k.body_append_after] at happend

end Construct

theorem eq_nil_of_tokens_nil (h : Tokens ps []) : ps = [] := by
  cases h
  rfl

/-- Where tokens are cut in two, the pieces fall in two as well. -/
theorem Tokens.exists_append (h : Tokens ps (ts ++ us)) (hus : us ≠ []) :
    ∃ ps₁ ps₂, ps = ps₁ ++ ps₂ ∧ Tokens ps₁ ts ∧ Tokens ps₂ us := by
  induction ts generalizing ps with
  | nil => exact ⟨[], ps, rfl, .nil, h⟩
  | cons t ts ih =>
    cases h with
    | @construct k ps _ h =>
      obtain ⟨ps₁, ps₂, hps, h₁, h₂⟩ := ih h
      have hne : k.after ps ≠ [] := by
        intro hn
        have := tokens_nil (hn ▸ h)
        simp [hus] at this
      obtain ⟨hb, ha⟩ := Construct.body_append hne ps₁
      refine ⟨k.opener ++ (k.body ps ++ ps₁), ps₂, ?_, ?_, h₂⟩
      · rw [List.append_assoc, List.append_assoc, ← hps, k.body_append_after]
      · have hc := Tokens.construct (ha.symm ▸ h₁)
        rwa [hb] at hc
    | loose hk h =>
      obtain ⟨ps₁, ps₂, rfl, h₁, h₂⟩ := ih h
      refine ⟨_ :: ps₁, ps₂, rfl, .loose (fun k hp => hk k ?_) h₁, h₂⟩
      exact hp.trans (List.prefix_append _ ps₂)

/-- Whether a construct opens hangs on two pieces at most. -/
theorem not_opener_append (hps : ps ≠ []) (hk : ∀ k : Construct, ¬ k.opener <+: p :: ps)
    (k : Construct) : ¬ k.opener <+: p :: (ps ++ qs) := by
  obtain ⟨q, rest, rfl⟩ := List.exists_cons_of_ne_nil hps
  intro h
  refine hk k ?_
  cases k <;> simpa [Construct.opener] using h

/-- Behind a separator in code, pieces are read as tokens as they are alone. -/
theorem Tokens.append (hc : c = ';' ∨ c = ',') (h : Tokens ps (ts ++ [.loose (.plain c)]))
    (h' : Tokens qs us) : Tokens (ps ++ qs) (ts ++ .loose (.plain c) :: us) := by
  generalize hts : ts ++ [Token.loose (.plain c)] = vs at h
  induction h generalizing ts with
  | nil => simp at hts
  | @construct k ps vs hvs ih =>
    cases ts with
    | nil => simp at hts
    | cons t ts =>
      obtain ⟨rfl, rfl⟩ := List.cons.inj hts
      have hafter : k.after ps ≠ [] := by
        intro hn
        have := tokens_nil (hn ▸ hvs)
        simp at this
      obtain ⟨hb, ha⟩ := Construct.append_of_after hafter qs
      rw [List.append_assoc, List.cons_append, ← hb]
      exact .construct (ha ▸ ih rfl)
  | @loose p ps vs hk hvs ih =>
    cases ts with
    | nil =>
      obtain ⟨hp, rfl⟩ := List.cons.inj hts
      obtain rfl : .plain c = p := by simpa using hp
      obtain rfl := eq_nil_of_tokens_nil hvs
      refine .loose (fun k => ?_) h'
      rcases hc with rfl | rfl <;> cases k <;> simp [Construct.opener]
    | cons t ts =>
      obtain ⟨rfl, rfl⟩ := List.cons.inj hts
      have hps : ps ≠ [] := by
        rintro rfl
        have := tokens_nil hvs
        simp at this
      exact .loose (not_opener_append hps hk) (ih rfl)

namespace Token

theorem cutBehind_append (h : loose (.plain c) ∉ us) (sofar : Text) :
    cutBehind c sofar (us ++ vs) = cutBehind c (sofar ++ textOf us) vs := by
  induction us generalizing sofar with
  | nil => simp
  | cons t us ih =>
    obtain ⟨ht, hus⟩ := not_or.mp (fun hm => h (List.mem_cons.mpr hm))
    rw [List.cons_append, cutBehind, if_neg (Ne.symm ht), ih hus]
    simp

theorem flatten_cutBehind (c : Char) (sofar : Text) (ts : List Token) :
    (cutBehind c sofar ts).flatten = sofar ++ textOf ts := by
  induction ts generalizing sofar with
  | nil => by_cases hs : sofar = [] <;> simp [cutBehind, hs]
  | cons t ts ih =>
    rw [cutBehind]
    split <;> simp [ih]

/-- A first cut that leaves something is behind the first separator in code. -/
theorem exists_cut (h : cutBehind c [] ts = x :: xs) (hxs : xs ≠ []) :
    ∃ us vs, ts = us ++ loose (.plain c) :: vs ∧ loose (.plain c) ∉ us ∧ x = textOf us ++ [c] ∧
      cutBehind c [] vs = xs := by
  by_cases hmem : loose (.plain c) ∈ ts
  · obtain ⟨us, vs, rfl, hus⟩ := List.eq_append_cons_of_mem hmem
    rw [cutBehind_append hus, cutBehind, if_pos rfl] at h
    obtain ⟨hx, hv⟩ := List.cons.inj h
    exact ⟨us, vs, rfl, hus, by simpa [text, Piece.text] using hx.symm, hv⟩
  · have hnil : cutBehind c [] (ts ++ []) = cutBehind c ([] ++ textOf ts) [] :=
      cutBehind_append hmem []
    rw [List.append_nil, h, cutBehind] at hnil
    split at hnil <;> simp_all

theorem length_cutBehind_mono {sofar' : Text} (h : sofar = [] → sofar' = []) (ts : List Token) :
    (cutBehind c sofar' ts).length ≤ (cutBehind c sofar ts).length := by
  induction ts generalizing sofar sofar' with
  | nil => by_cases hs : sofar = [] <;> by_cases hs' : sofar' = [] <;> simp_all [cutBehind]
  | cons t ts ih =>
    rw [cutBehind, cutBehind]
    split
    · simp
    · exact ih fun ha => by simp_all

/-- The end of a text from a token on is cut no more often than the text. -/
theorem length_cutBehind_le (c : Char) (sofar : Text) (us vs : List Token) :
    (cutBehind c [] vs).length ≤ (cutBehind c sofar (us ++ vs)).length := by
  induction us generalizing sofar with
  | nil => exact length_cutBehind_mono (fun _ => rfl) vs
  | cons t us ih =>
    rw [List.cons_append, cutBehind]
    split
    · exact (ih []).trans (Nat.le_succ _)
    · exact ih _

end Token

theorem Grammar.split_eq (hc : c = ';' ∨ c = ',') (h : Grammar s ts) :
    split [c] s = Token.cutBehind c [] ts := by
  obtain ⟨ps, hr, ht⟩ := h
  have hs : c ≠ '\x27' := by rcases hc with rfl | rfl <;> decide
  have hq : c ≠ '"' := by rcases hc with rfl | rfl <;> decide
  rw [split, reads_iff.mp hr, scan_tokens hs hq ht, List.reverse_nil]

theorem Grammar.text_ne_nil (h : Grammar s ts) (ht : t ∈ ts) : t.text ≠ [] := by
  obtain ⟨ps, hr, hts⟩ := h
  obtain ⟨us, vs, rfl⟩ := List.append_of_mem ht
  obtain ⟨qs, hq, htail⟩ := hts.exists_right
  cases htail with
  | @construct k => cases k <;> simp [Token.text, Construct.opener, Piece.text]
  | loose =>
    obtain ⟨_, _, hstarts⟩ := hr.exists_starts (hq.subset List.mem_cons_self)
    exact hstarts.text_ne_nil

theorem eq_nil_of_split_eq_nil (h : split [c] s = []) : s = [] := by
  rw [← flatten_split [c] s, h, List.flatten_nil]

theorem split_eq_singleton (h : (split [c] s).length ≤ 1) (hs : s ≠ []) : split [c] s = [s] := by
  have hf := flatten_split [c] s
  match hsplit : split [c] s with
  | [] => exact (hs (eq_nil_of_split_eq_nil hsplit)).elim
  | [x] =>
    rw [hsplit] at hf
    simpa using hf
  | _ :: _ :: _ => simp [hsplit] at h

/-- A single statement has no separator in code but at its end. -/
theorem Grammar.eq_nil_of_split (hc : c = ';' ∨ c = ',')
    (h : Grammar s (us ++ .loose (.plain c) :: vs)) (hs : split [c] s = [s]) : vs = [] := by
  have hle := Token.length_cutBehind_le c [] us (.loose (.plain c) :: vs)
  rw [← h.split_eq hc, hs, Token.cutBehind, if_pos rfl, List.length_cons] at hle
  have hcut : Token.cutBehind c [] vs = [] := List.eq_nil_of_length_eq_zero (by simpa using hle)
  have htext := Token.flatten_cutBehind c [] vs
  rw [hcut] at htext
  by_contra hvs
  obtain ⟨t, vs, rfl⟩ := List.exists_cons_of_ne_nil hvs
  have := h.text_ne_nil (t := t) (by simp)
  simp_all

/-- The text ends in a separator in code. -/
def Ends (c : Char) (s : Text) : Prop := ∃ ts, Grammar s (ts ++ [.loose (.plain c)])

/-- Of two statements of a text, `x` may stand before `y`: it has its separator, and `y` closes none
of its open tags. -/
structure Precedes (c : Char) (x y : Text) : Prop where
  ends : Ends c x
  leavesOpen : ∀ t, .dollar t ∈ ofText x → IsTag t → ¬ t <:+: y

theorem Ends.getLast?_eq (h : Ends c s) : s.getLast? = some c := by
  obtain ⟨ts, hts⟩ := h
  rw [← hts.textOf_eq]
  simp [Token.text, Piece.text]

/-- A tag that is open in a text stands in nothing behind it. -/
theorem not_isInfix_of_reads {d : Text} (h : Reads s (ps ++ qs)) (hd : .dollar d ∈ ps)
    (htag : IsTag d) : ¬ d <:+: Piece.textOf qs := by
  obtain ⟨front, back, rfl⟩ := List.append_of_mem hd
  rw [List.append_assoc, List.cons_append] at h
  have hback := h.append_right
  generalize Piece.textOf (.dollar d :: (back ++ qs)) = u at hback
  cases hback with
  | cons hstarts hrest =>
    refine fun hi => hstarts.not_isInfix htag (hi.trans ?_)
    rw [← hrest.textOf_eq, Piece.textOf_append]
    exact (List.suffix_append _ _).isInfix

theorem ofText_of_split (h : split [c] s = xs ++ ys) :
    ofText s = ofText xs.flatten ++ ofText ys.flatten := by
  obtain ⟨ps₁, ps₂, hps, h₁, h₂⟩ := exists_append_of_split h
  have hflat (ps : List Piece) : (scan [c] .code [] ps).flatten = Piece.textOf ps := by
    rw [flatten_scan, List.reverse_nil, List.nil_append]
  obtain ⟨hps₁, hps₂⟩ := ofText_textOf_of_append hps
  rw [← h₁, ← h₂, hflat, hflat, hps₁, hps₂, hps]

theorem ends_of_split (hc : c = ';' ∨ c = ',') (h : split [c] s = x :: xs) (hxs : xs ≠ []) :
    Ends c x := by
  have hr : Reads s (ofText s) := reads_iff.mpr rfl
  obtain ⟨ts, hts⟩ := exists_tokens (ofText s)
  have hcut : Token.cutBehind c [] ts = x :: xs := h ▸ (Grammar.split_eq hc ⟨_, hr, hts⟩).symm
  obtain ⟨us, vs, rfl, -, hx, hvs⟩ := Token.exists_cut hcut hxs
  have hvs' : vs ≠ [] := by
    rintro rfl
    exact hxs hvs.symm
  rw [← List.singleton_append, ← List.append_assoc] at hts
  obtain ⟨ps₁, ps₂, hps, h₁, -⟩ := hts.exists_append hvs'
  have htext : Piece.textOf ps₁ = x := by
    rw [← h₁.textOf_eq, hx]
    simp [Token.text, Piece.text]
  have hpieces : ofText x = ps₁ := htext ▸ (ofText_textOf_of_append hps).1
  exact ⟨us, ps₁, reads_iff.mpr hpieces, h₁⟩

/-- Each statement of a text may stand before all later ones. -/
theorem pairwise_split (hc : c = ';' ∨ c = ',') (s : Text) :
    (split [c] s).Pairwise (Precedes c) := by
  generalize hs : split [c] s = sts
  induction sts generalizing s with
  | nil => exact .nil
  | cons x sts ih =>
    -- the later statements are those of the rest of the text
    have hrest : split [c] sts.flatten = sts :=
      split_flatten_of_isInfix (hs ▸ (List.suffix_cons x sts).isInfix)
    refine List.pairwise_cons.mpr ⟨fun y hy => ⟨?_, ?_⟩, ih _ hrest⟩
    · exact ends_of_split hc hs (List.ne_nil_of_mem hy)
    · intro d hd htag hi
      have hr : Reads s (ofText x ++ ofText sts.flatten) := by
        have hpieces : ofText s = ofText [x].flatten ++ ofText sts.flatten := ofText_of_split hs
        rw [List.flatten_singleton] at hpieces
        exact reads_iff.mpr hpieces
      refine not_isInfix_of_reads hr hd htag (hi.trans ?_)
      rw [textOf_ofText]
      exact List.infix_of_mem_flatten hy

/-- Behind a statement that ends in a separator in code, a text keeps its tokens. -/
theorem Grammar.append (hc : c = ';' ∨ c = ',') (h : Grammar x (ts ++ [.loose (.plain c)]))
    (hxy : ofText (x ++ y) = ofText x ++ ofText y) (h' : Grammar y us) :
    Grammar (x ++ y) (ts ++ .loose (.plain c) :: us) := by
  obtain ⟨ps, hr, hts⟩ := h
  obtain ⟨qs, hr', hts'⟩ := h'
  refine ⟨ps ++ qs, reads_iff.mpr ?_, hts.append hc hts'⟩
  rw [hxy, reads_iff.mp hr, reads_iff.mp hr']

theorem Ends.ofText_append (hc : c = ';' ∨ c = ',') (h : Ends c x)
    (hxy : ∀ d, .dollar d ∈ ofText x → IsTag d → ¬ d <:+: y) :
    ofText (x ++ y) = ofText x ++ ofText y :=
  Piece.ofText_append h.getLast?_eq (isOutsideTags_separator hc) hxy

/-- A statement that ends in a separator in code is cut off what follows. -/
theorem split_append_of_ends (hc : c = ';' ∨ c = ',') (h : Ends c x) (hx : split [c] x = [x])
    (hxy : ∀ d, .dollar d ∈ ofText x → IsTag d → ¬ d <:+: y) :
    split [c] (x ++ y) = x :: split [c] y := by
  obtain ⟨ts, hts⟩ := id h
  have hmem : .loose (.plain c) ∉ ts := by
    intro hm
    obtain ⟨us, vs, rfl⟩ := List.append_of_mem hm
    rw [List.append_assoc, List.cons_append] at hts
    simpa using hts.eq_nil_of_split hc hx
  have hy := grammar_ofText y
  have hpieces := h.ofText_append hc hxy
  have htext : Token.textOf ts ++ [c] = x := by
    simpa [Token.text, Piece.text] using hts.textOf_eq
  rw [(hts.append hc hpieces hy).split_eq hc, Token.cutBehind_append hmem, Token.cutBehind,
    if_pos rfl, hy.split_eq hc, List.nil_append]
  exact congrArg (· :: _) htext

/-- A tag that stands in none of the texts does not reach across their ends. -/
theorem not_isInfix_flatten {d : Text} (hd : c ∉ d) (h : xs.Pairwise (Precedes c))
    (hxs : ∀ x ∈ xs, ¬ d <:+: x) (hne : d ≠ []) : ¬ d <:+: xs.flatten := by
  induction xs with
  | nil => simpa using hne
  | cons x xs ih =>
    obtain ⟨hx, hrest⟩ := List.forall_mem_cons.mp hxs
    obtain ⟨hpre, hpairs⟩ := List.pairwise_cons.mp h
    cases xs with
    | nil => simpa using hx
    | cons y xs =>
      have hlast := (hpre y List.mem_cons_self).ends.getLast?_eq
      obtain ⟨front, rfl⟩ := List.getLast?_eq_some_iff.mp hlast
      rw [List.flatten_cons, List.append_assoc, List.singleton_append,
        Text.isInfix_append_cons hd, not_or]
      exact ⟨fun hi => hx (hi.trans (List.prefix_append front [c]).isInfix), ih hpairs hrest⟩

/-- Texts that are a statement each and may follow each other are the statements of the text that
they make. -/
theorem split_flatten_of_pairwise (hc : c = ';' ∨ c = ',') (h : xs.Pairwise (Precedes c))
    (hxs : ∀ x ∈ xs, split [c] x = [x]) : split [c] xs.flatten = xs := by
  induction xs with
  | nil => simp [split, scan_nil]
  | cons x xs ih =>
    obtain ⟨hx, hrest⟩ := List.forall_mem_cons.mp hxs
    obtain ⟨hpre, hpairs⟩ := List.pairwise_cons.mp h
    cases xs with
    | nil => simpa using hx
    | cons y ys =>
      have hends : Ends c x := (hpre y List.mem_cons_self).ends
      have htags : ∀ d, .dollar d ∈ ofText x → IsTag d → ¬ d <:+: (y :: ys).flatten := by
        intro d hd htag
        have hne : d ≠ [] := by
          obtain ⟨t, rfl⟩ := htag.exists_tail
          simp
        exact not_isInfix_flatten (htag.not_mem (isOutsideTags_separator hc)) hpairs
          (fun z hz => (hpre z hz).leavesOpen d hd htag) hne
      rw [List.flatten_cons, split_append_of_ends hc hends hx htags, ih hpairs hrest]

end SchemaDump.Statement
