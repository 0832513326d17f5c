import SchemaDump.Proofs.Statement.Sequence

/-! Stretches of a statement, each told by the mode in which it leaves the scanner. Where no mark
reaches from one into the next, a text is scanned stretch by stretch, and one may stand for another
that leads to the same mode. -/
namespace SchemaDump.Statement

open Piece

variable {separator sofar s t x : Text} {m n : Mode} {c d : Char} {p : Piece} {ps qs : List Piece}
  {k : Construct} {us vs : List Token}

/-- The mode behind the pieces, unless a separator cuts them. -/
def pass (separator : Text) (m : Mode) : List Piece → Option Mode
  | [] => some m
  | .dollar _ :: ps => pass separator m ps
  | .plain c :: .plain d :: ps =>
    match m.afterMark? c d with
    | some n => pass separator n ps
    | none => if m.cuts separator c then none else pass separator (m.after c) (.plain d :: ps)
  | .plain c :: ps => if m.cuts separator c then none else pass separator (m.after c) ps

theorem pass_nil : pass separator m [] = some m := by simp [pass]

theorem pass_dollar (t : Text) : pass separator m (.dollar t :: ps) = pass separator m ps := by
  simp [pass]

theorem pass_mark (h : m.afterMark? c d = some n) :
    pass separator m (.plain c :: .plain d :: ps) = pass separator n ps := by
  simp [pass, h]

theorem pass_plain (h : NoMark m c ps) : pass separator m (.plain c :: ps) =
    if m.cuts separator c then none else pass separator (m.after c) ps := by
  match ps with
  | [] | .dollar t :: ps => simp [pass]
  | .plain d :: ps => simp [pass, h d ps rfl]

/-- No mark reaches from the first pieces into the others, in whatever mode. -/
def Apart (ps qs : List Piece) : Prop :=
  ∀ c, ps.getLast? = some (.plain c) → ∀ m, NoMark m c qs

theorem Apart.tail (h : Apart (p :: ps) qs) : Apart ps qs := by
  intro c hc
  cases ps with
  | nil => simp at hc
  | cons q ps => exact h c (by rwa [List.getLast?_cons_cons])

theorem Apart.noMark (h : Apart (.plain c :: ps) qs) (hps : NoMark m c ps) :
    NoMark m c (ps ++ qs) := by
  cases ps with
  | nil => exact h c rfl m
  | cons q ps => exact hps.append (List.cons_ne_nil q ps)

theorem pass_append (h : Apart ps qs) :
    pass separator m (ps ++ qs) = (pass separator m ps).bind (pass separator · qs) := by
  revert h
  refine scan_induct separator (motive := fun m _ ps => Apart ps qs →
    pass separator m (ps ++ qs) = (pass separator m ps).bind (pass separator · qs))
    ?_ ?_ ?_ ?_ ?_ m [] ps
  · intro m _ _
    rw [pass_nil]
    rfl
  · intro m _ t ps ih h
    rw [List.cons_append, pass_dollar, pass_dollar, ih h.tail]
  · intro m _ c d n ps hmark ih h
    rw [List.cons_append, List.cons_append, pass_mark hmark, pass_mark hmark, ih h.tail.tail]
  · intro m _ c ps hno hcut _ h
    rw [List.cons_append, pass_plain (h.noMark hno), pass_plain hno, if_pos hcut, if_pos hcut]
    rfl
  · intro m _ c ps hno hcut ih h
    rw [List.cons_append, pass_plain (h.noMark hno), pass_plain hno, hcut]
    exact ih h.tail

/-- Where nothing cuts a stretch, the scan goes on behind it. -/
theorem scan_of_pass (hpass : pass separator m ps = some n) (h : Apart ps qs) :
    scan separator m sofar (ps ++ qs) =
      scan separator n ((textOf ps).reverse ++ sofar) qs := by
  induction m, sofar, ps using scan_induct separator with
  | done m sofar =>
    obtain rfl : m = n := by simpa [pass_nil] using hpass
    rfl
  | dollar m sofar t ps ih =>
    rw [List.cons_append, scan_dollar, ih (by rwa [pass_dollar] at hpass) h.tail]
    simp [Piece.text]
  | mark m sofar a b n' ps hmark ih =>
    rw [List.cons_append, List.cons_append, scan_mark hmark,
      ih (by rwa [pass_mark hmark] at hpass) h.tail.tail]
    simp [Piece.text]
  | cut m sofar a ps hno hcut ih =>
    rw [pass_plain hno, if_pos hcut] at hpass
    cases hpass
  | on m sofar a ps hno hcut ih =>
    rw [pass_plain hno, hcut] at hpass
    rw [List.cons_append, scan_on (h.noMark hno) hcut, ih hpass h.tail]
    simp [Piece.text]

/-- No mark begins with the one character that closes a construct. -/
theorem noMark_of_isCloser (hk : k.isCloser [.plain d] = true) : NoMark k.mode d qs := by
  intro e rest _
  cases k with
  | lineComment =>
    obtain rfl | rfl : d = '\r' ∨ d = '\n' := by simpa [Construct.isCloser] using hk
    · rfl
    · rfl
  | blockComment => simp [Construct.isCloser] at hk
  | string | quotedIdentifier => rfl

/-- A construct that ends before the pieces do leads back to code. -/
theorem pass_body (hs : c ≠ '\x27') (hq : c ≠ '"') (k : Construct) (h : k.after ps ≠ [])
    (qs : List Piece) : pass [c] k.mode (k.body ps ++ qs) = pass [c] .code qs := by
  generalize hm : k.mode = m
  revert h hm
  refine scan_induct [c] (motive := fun m _ ps => k.after ps ≠ [] → k.mode = m →
    pass [c] m (k.body ps ++ qs) = pass [c] .code qs) ?_ ?_ ?_ ?_ ?_ m [] ps
  · intro m _ h _
    exact (h k.after_nil).elim
  · intro m _ t ps ih h hm
    have hu := k.units_dollar t ps
    rw [Construct.after_of_units hu, Construct.isCloser_dollar] at h
    rw [Construct.body_of_units hu, Construct.isCloser_dollar]
    exact (pass_dollar t).trans (ih h hm)
  · intro m _ a b n ps hmark ih h hm
    subst hm
    obtain ⟨rfl, hb, ha⟩ | ⟨rfl, hb, ha⟩ := k.mark_or_closer hmark ps
    · rw [hb, List.cons_append, List.cons_append, pass_mark hmark, ih (ha ▸ h) rfl]
    · rw [hb, List.cons_append, List.cons_append, pass_mark hmark, List.nil_append]
  · intro m _ a ps _ hcut _ _ hm
    subst hm
    simp [Construct.cuts_mode hs hq] at hcut
  · intro m _ a ps hno hcut ih h hm
    subst hm
    have hu := k.units_plain hno
    have hafter := k.after_mode a
    rw [Construct.body_of_units hu]
    rw [Construct.after_of_units hu] at h
    cases hcloser : k.isCloser [.plain a] with
    | true =>
      rw [hcloser] at hafter
      rw [if_pos rfl, List.singleton_append, pass_plain (noMark_of_isCloser hcloser), hcut, hafter]
      rfl
    | false =>
      rw [hcloser] at hafter h
      have hne : ps ≠ [] := by
        rintro rfl
        exact h k.after_nil
      obtain ⟨q, more, rfl⟩ := List.exists_cons_of_ne_nil hne
      obtain ⟨body, hbody⟩ := k.exists_body_cons q more
      have hno' : NoMark k.mode a (k.body (q :: more) ++ qs) := by
        rw [hbody]
        rintro e rest ⟨⟩
        exact hno e more rfl
      have hnext := ih h hafter.symm
      rw [hafter] at hnext
      rw [if_neg Bool.false_ne_true, List.append_assoc, List.singleton_append, pass_plain hno',
        hcut, hafter]
      exact hnext

theorem pass_opener (k : Construct) :
    pass [c] .code (k.opener ++ ps) = pass [c] k.mode ps := by
  cases k with
  | lineComment | blockComment => exact pass_mark rfl
  | string | quotedIdentifier =>
    refine (pass_plain fun d qs _ => by simp [Mode.afterMark?]).trans ?_
    simp [Mode.cuts, Mode.after_code, Construct.mode]

theorem pass_loose (hk : ∀ k : Construct, ¬ k.opener <+: p :: ps) (hp : p ≠ .plain c)
    (hqs : qs <+: ps) : pass [c] .code (p :: qs) = pass [c] .code qs := by
  obtain ⟨rest, rfl⟩ := hqs
  cases p with
  | dollar t => exact pass_dollar t
  | plain d =>
    have hd : d ≠ c := by
      rintro rfl
      exact hp rfl
    rw [pass_plain (noMark_of_not_opener hk).of_append, Mode.cuts, after_of_not_opener hk]
    simp [hd]

/-- Before a token in code, tokens without a separator in code lead from code to code. -/
theorem exists_pass_of_tokens (hs : c ≠ '\x27') (hq : c ≠ '"') (h : Tokens ps (us ++ vs))
    (hvs : vs ≠ []) (hc : .loose (.plain c) ∉ us) :
    ∃ qs rest, ps = qs ++ rest ∧ textOf qs = Token.textOf us ∧
      pass [c] .code qs = some .code := by
  induction us generalizing ps with
  | nil => exact ⟨[], ps, rfl, rfl, pass_nil⟩
  | cons t us ih =>
    obtain ⟨ht, hus⟩ := not_or.mp fun hm => hc (List.mem_cons.mpr hm)
    cases h with
    | @construct k ps _ h =>
      obtain ⟨qs, rest, hafter, htext, hpass⟩ := ih h hus
      have hne : k.after ps ≠ [] := by
        intro hn
        have hnil := tokens_nil (hn ▸ h)
        simp [hvs] at hnil
      refine ⟨k.opener ++ (k.body ps ++ qs), rest, ?_, ?_, ?_⟩
      · rw [List.append_assoc, List.append_assoc, ← hafter, k.body_append_after]
      · simp [htext, Token.text]
      · rw [pass_opener, pass_body hs hq k hne, hpass]
    | @loose p ps _ hk h =>
      obtain ⟨qs, rest, rfl, htext, hpass⟩ := ih h hus
      refine ⟨p :: qs, rest, rfl, by simp [htext, Token.text], ?_⟩
      rw [pass_loose hk (fun hp => ht (by rw [hp])) (List.prefix_append qs rest), hpass]

/-- Characters of which two can make a mark. -/
def marks : List Char := ['-', '/', '*']

/-- No mark reaches from the first text into the other one. -/
def Seam (s t : Text) : Prop := (∀ c ∈ s.getLast?, c ∉ marks) ∨ ∀ d ∈ t.head?, d ∉ marks

theorem seam_cons (hc : c ∉ marks) (s t : Text) : Seam s (c :: t) := by
  right
  rintro d ⟨⟩
  exact hc

theorem seam_concat (hc : c ∉ marks) (s t : Text) : Seam (s ++ [c]) t := by
  left
  intro d hd
  obtain rfl : c = d := by simpa using hd
  exact hc

/-- The text has no dollar sign. From mode `m` it leads to mode `n`, and no semicolon cuts it. -/
structure Leads (m : Mode) (s : Text) (n : Mode) : Prop where
  noDollar : '$' ∉ s
  pass_eq : pass [';'] m (s.map .plain) = some n

theorem afterMark?_eq_none (h : c ∉ marks ∨ d ∉ marks) (m : Mode) : m.afterMark? c d = none := by
  unfold Mode.afterMark?
  split <;> simp_all [marks]

theorem Seam.apart (h : Seam s t) : Apart (s.map .plain) (t.map .plain) := by
  intro c hc m d qs hqs
  have hlast : s.getLast? = some c := by simpa [List.getLast?_map] using hc
  have hhead : t.head? = some d := by
    have := congrArg List.head? hqs
    simpa [List.head?_map] using this
  exact afterMark?_eq_none (h.imp (· c hlast) (· d hhead)) m

theorem leads_nil (m : Mode) : Leads m [] m := ⟨List.not_mem_nil, pass_nil⟩

theorem leads_append_iff (h : Seam s t) {l : Mode} :
    Leads m (s ++ t) l ↔ ∃ n, Leads m s n ∧ Leads n t l := by
  constructor
  · rintro ⟨hdollar, hpass⟩
    rw [List.map_append, pass_append h.apart] at hpass
    obtain ⟨n, hs, ht⟩ := Option.bind_eq_some_iff.mp hpass
    rw [List.mem_append, not_or] at hdollar
    exact ⟨n, ⟨hdollar.1, hs⟩, ⟨hdollar.2, ht⟩⟩
  · rintro ⟨n, hs, ht⟩
    refine ⟨?_, ?_⟩
    · rw [List.mem_append, not_or]
      exact ⟨hs.noDollar, ht.noDollar⟩
    · rw [List.map_append, pass_append h.apart, hs.pass_eq]
      exact ht.pass_eq

theorem Leads.unique {n' : Mode} (h : Leads m s n) (h' : Leads m s n') : n = n' :=
  Option.some.inj (h.pass_eq.symm.trans h'.pass_eq)

/-- A character that means nothing to the scanner where it stands in code. -/
def IsNeutral (c : Char) : Prop := c ∉ '$' :: ';' :: '\x27' :: '"' :: marks

instance (c : Char) : Decidable (IsNeutral c) := inferInstanceAs (Decidable (_ ∉ _))

theorem isNeutral_of_all (h : s.all (fun c => IsNeutral c) = true) : ∀ c ∈ s, IsNeutral c :=
  fun c hc => of_decide_eq_true (List.all_eq_true.mp h c hc)

theorem IsNeutral.not_mem_marks (h : IsNeutral c) : c ∉ marks :=
  fun hc => h (by simp [hc])

theorem seam_append (hne : t ≠ []) (ht : ∀ c ∈ t, IsNeutral c) (s u : Text) : Seam s (t ++ u) := by
  obtain ⟨c, t, rfl⟩ := List.exists_cons_of_ne_nil hne
  exact seam_cons (ht c List.mem_cons_self).not_mem_marks s _

theorem leads_cons_iff (hno : NoMark m c (s.map .plain)) (hdollar : c ≠ '$')
    (hcut : m.cuts [';'] c = false) : Leads m (c :: s) n ↔ Leads (m.after c) s n := by
  have hpass : pass [';'] m ((c :: s).map .plain) = pass [';'] (m.after c) (s.map .plain) := by
    rw [List.map_cons, pass_plain hno, hcut]
    rfl
  constructor
  · rintro ⟨hnot, h⟩
    exact ⟨fun hm => hnot (List.mem_cons_of_mem c hm), hpass.symm.trans h⟩
  · rintro ⟨hnot, h⟩
    exact ⟨List.not_mem_cons_of_ne_of_not_mem hdollar.symm hnot, hpass.trans h⟩

theorem IsNeutral.leads_cons_iff (hc : IsNeutral c) :
    Leads m (c :: s) n ↔ Leads (m.after c) s n := by
  have hno : NoMark m c (s.map .plain) :=
    fun d _ _ => afterMark?_eq_none (Or.inl hc.not_mem_marks) m
  simp only [IsNeutral, List.mem_cons, not_or] at hc
  obtain ⟨hdollar, hsemicolon, -⟩ := hc
  exact Statement.leads_cons_iff hno hdollar (by simp [Mode.cuts, hsemicolon])

/-- Neutral characters may stand before anything that is scanned from code on. -/
theorem leads_append_iff_of_isNeutral (h : ∀ c ∈ s, IsNeutral c) :
    Leads .code (s ++ t) n ↔ Leads .code t n := by
  induction s with
  | nil => rfl
  | cons c s ih =>
    obtain ⟨hc, hs⟩ := List.forall_mem_cons.mp h
    rw [List.cons_append, hc.leads_cons_iff, ← ih hs]
    simp only [IsNeutral, List.mem_cons, not_or] at hc
    obtain ⟨-, -, hstring, hquote, -⟩ := hc
    rw [Mode.after_code, if_neg hstring, if_neg hquote]

theorem leads_of_isNeutral (h : ∀ c ∈ s, IsNeutral c) : Leads .code s .code := by
  have hs := (leads_append_iff_of_isNeutral (t := []) h).mpr (leads_nil .code)
  rwa [List.append_nil] at hs

/-- A line end leads to code from code and from a line comment. -/
theorem leads_newline (hm : m = .code ∨ m = .lineComment) : Leads m ['\n'] .code := by
  refine ⟨by decide, ?_⟩
  obtain rfl | rfl := hm <;> rfl

theorem leads_comma (hm : m = .code ∨ m = .lineComment) : Leads m [','] m := by
  refine ⟨by decide, ?_⟩
  obtain rfl | rfl := hm <;> rfl

/-- A single statement without dollar signs that ends in its semicolon. -/
structure IsPlain (s : Text) : Prop where
  noDollar : '$' ∉ s
  single : split [';'] s = [s]
  ends : Ends ';' s

/-- Behind `x`, the text goes on in code. -/
def InCode (x s : Text) : Prop :=
  ∃ us d vs, Grammar s (us ++ .loose (.plain d) :: vs) ∧ Token.textOf us = x

theorem inCode_iff : InCode x s ↔ ∃ k < (Token.ofText s).length,
    (Token.ofText s)[k]?.any Token.isCode = true ∧ Token.textOf ((Token.ofText s).take k) = x := by
  constructor
  · rintro ⟨us, d, vs, hts, rfl⟩
    have heq := (grammar_iff (grammar_ofText s)).mp hts
    exact ⟨us.length, by simp [← heq], by simp [← heq, Token.isCode], by simp [← heq]⟩
  · rintro ⟨k, hk, hcode, rfl⟩
    have hcut : (Token.ofText s).take k ++ (Token.ofText s)[k] :: (Token.ofText s).drop (k + 1) =
        Token.ofText s := by
      rw [List.getElem_cons_drop, List.take_append_drop]
    rw [List.getElem?_eq_getElem hk, Option.any_some] at hcode
    obtain ⟨d, hd⟩ : ∃ d, (Token.ofText s)[k] = .loose (.plain d) := by
      revert hcode
      cases (Token.ofText s)[k] with
      | construct k ps => simp [Token.isCode]
      | loose p => cases p <;> simp [Token.isCode]
    rw [hd] at hcut
    exact ⟨_, d, _, hcut.symm ▸ grammar_ofText s, rfl⟩

instance (x s : Text) : Decidable (InCode x s) := decidable_of_iff _ inCode_iff.symm

theorem ofText_of_not_mem (h : '$' ∉ s) : ofText s = s.map .plain := by
  induction s with
  | nil => exact ofText_nil
  | cons c s ih =>
    obtain ⟨hc, hs⟩ := not_or.mp fun hm => h (List.mem_cons.mpr hm)
    rw [(Starts.plain (Ne.symm hc)).ofText_eq, ih hs, List.map_cons]

theorem textOf_map_plain (s : Text) : textOf (s.map .plain) = s := by
  induction s with
  | nil => rfl
  | cons c s ih => rw [List.map_cons, Piece.textOf_cons, ih, Piece.text, List.singleton_append]

/-- Of a single statement, what stands before a place in code leads to code. -/
theorem IsPlain.leads_of_inCode (h : IsPlain s) (hx : InCode x s) : Leads .code x .code := by
  obtain ⟨us, d, vs, hts, rfl⟩ := hx
  have hmem : .loose (.plain ';') ∉ us := by
    intro hm
    obtain ⟨ts, rest, rfl⟩ := List.append_of_mem hm
    rw [List.append_assoc, List.cons_append] at hts
    simpa using hts.eq_nil_of_split (Or.inl rfl) h.single
  obtain ⟨ps, hr, htokens⟩ := hts
  obtain ⟨qs, rest, rfl, htext, hpass⟩ :=
    exists_pass_of_tokens (by decide) (by decide) htokens (List.cons_ne_nil _ vs) hmem
  have hpieces : s.map .plain = qs ++ rest :=
    (ofText_of_not_mem h.noDollar).symm.trans (reads_iff.mp hr)
  obtain ⟨x, y, rfl, rfl, -⟩ := List.map_eq_append_iff.mp hpieces
  rw [textOf_map_plain] at htext
  subst htext
  exact ⟨fun hm => h.noDollar (List.mem_append_left y hm), hpass⟩

/-- A semicolon in code cuts. -/
theorem Leads.split_append (h : Leads .code s .code) (ht : '$' ∉ t) :
    split [';'] (s ++ ';' :: t) = (s ++ [';']) :: split [';'] t := by
  have hdollar : '$' ∉ s ++ ';' :: t := by simp [h.noDollar, ht]
  have hseam : Seam s (';' :: t) := seam_cons (by decide) s t
  have hcut : Mode.code.cuts [';'] ';' = true := rfl
  have hno : NoMark .code ';' (t.map .plain) :=
    fun d _ _ => afterMark?_separator (Or.inl rfl) .code d
  rw [split, split, ofText_of_not_mem hdollar, ofText_of_not_mem ht, List.map_append,
    scan_of_pass h.pass_eq hseam.apart, List.map_cons, scan_cut hno hcut, textOf_map_plain]
  simp

/-- Such a statement is anything that leads from code to code, and a semicolon. -/
theorem isPlain_iff : IsPlain s ↔ ∃ front, s = front ++ [';'] ∧ Leads .code front .code := by
  constructor
  · intro h
    obtain ⟨ts, hts⟩ := h.ends
    refine ⟨Token.textOf ts, ?_, h.leads_of_inCode ⟨ts, ';', [], hts, rfl⟩⟩
    rw [← hts.textOf_eq, Token.textOf_append]
    rfl
  · rintro ⟨front, rfl, hfront⟩
    have hsingle := hfront.split_append (t := []) List.not_mem_nil
    have hnil : split [';'] [] = [] := by simp [split, scan_nil]
    have hmore := hfront.split_append (t := ['x']) (by decide)
    have hx : split [';'] ['x'] = [['x']] := by decide +kernel
    rw [hnil] at hsingle
    rw [hx] at hmore
    exact ⟨by simp [hfront.noDollar], hsingle, ends_of_split (Or.inl rfl) hmore (by simp)⟩

/-- What stands behind a place in code leads to the semicolon at the end. -/
theorem IsPlain.leads_behind (h : IsPlain (x ++ t)) (hx : InCode x (x ++ t)) (hseam : Seam x t)
    (ht : t ≠ []) : ∃ u, t = u ++ [';'] ∧ Leads .code x .code ∧ Leads .code u .code := by
  obtain ⟨front, heq, hfront⟩ := isPlain_iff.mp h
  obtain ⟨u, d, rfl⟩ := t.eq_nil_or_concat'.resolve_left ht
  rw [← List.append_assoc] at heq
  obtain ⟨rfl, hlast⟩ := List.append_inj' heq rfl
  obtain rfl : d = ';' := List.singleton_inj.mp hlast
  have hu : Seam x u := by
    refine hseam.imp_right fun hhead d hd => hhead d ?_
    cases u with
    | nil => cases hd
    | cons e u => exact hd
  have hleads := h.leads_of_inCode hx
  obtain ⟨n, hxn, hun⟩ := (leads_append_iff hu).mp hfront
  obtain rfl := hleads.unique hxn
  exact ⟨u, rfl, hleads, hun⟩

theorem isPlain_iff_pass : IsPlain s ↔ s.getLast? = some ';' ∧ '$' ∉ s.dropLast ∧
    pass [';'] .code (s.dropLast.map .plain) = some .code := by
  rw [isPlain_iff]
  constructor
  · rintro ⟨front, rfl, hdollar, hpass⟩
    exact ⟨by simp, by simpa using hdollar, by simpa using hpass⟩
  · rintro ⟨hlast, hdollar, hpass⟩
    exact ⟨s.dropLast, (List.dropLast_append_getLast? ';' hlast).symm, hdollar, hpass⟩

instance (s : Text) : Decidable (IsPlain s) := decidable_of_iff _ isPlain_iff_pass.symm

theorem IsPlain.precedes (h : IsPlain s) (t : Text) : Precedes ';' s t where
  ends := h.ends
  leavesOpen d hd _ _ := by
    rw [ofText_of_not_mem h.noDollar] at hd
    simp at hd

/-- A text made of them is cut into them. -/
theorem split_flatten_of_isPlain {xs : List Text} (h : ∀ x ∈ xs, IsPlain x) :
    split [';'] xs.flatten = xs := by
  refine split_flatten_of_pairwise (Or.inl rfl) ?_ fun x hx => (h x hx).single
  exact List.pairwise_of_forall_mem_list fun x hx y _ => (h x hx).precedes y

theorem IsPlain.append_of_isNeutral (h : IsPlain t) (hs : ∀ c ∈ s, IsNeutral c) :
    IsPlain (s ++ t) := by
  obtain ⟨front, rfl, hfront⟩ := isPlain_iff.mp h
  refine isPlain_iff.mpr ⟨s ++ front, (List.append_assoc s front [';']).symm, ?_⟩
  exact (leads_append_iff_of_isNeutral hs).mpr hfront

end SchemaDump.Statement
