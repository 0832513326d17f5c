import SchemaDump.Proofs.Endings
import SchemaDump.Proofs.Statement.Sequence

/-! Statements without some of the text around them. Blanks on either side may be taken away or put
there, and tokens at the start taken away: what is left is still one statement, and may stand where
the whole stood among others. -/
namespace SchemaDump.Statement

open Piece Text

variable {s t v x y b b' : Text} {c : Char} {ts us vs : List Token} {xs : List Text}

/-- The statement `x` stands in the statement `s`, and may stand for it among other statements. -/
structure Core (c : Char) (s x : Text) : Prop where
  alone : split [c] x = [x]
  isInfix : x <:+: s
  dollars : ∀ d, .dollar d ∈ ofText x → .dollar d ∈ ofText s
  ends : Ends c s → Ends c x

theorem Core.trans (h : Core c s t) (h' : Core c t x) : Core c s x where
  alone := h'.alone
  isInfix := h'.isInfix.trans h.isInfix
  dollars d hd := h.dollars d (h'.dollars d hd)
  ends hs := h'.ends (h.ends hs)

theorem Precedes.core (h : Precedes c s t) (hx : Core c s x) (hy : Core c t y) :
    Precedes c x y where
  ends := hx.ends h.ends
  leavesOpen d hd htag hi := h.leavesOpen d (hx.dollars d hd) htag (hi.trans hy.isInfix)

theorem Grammar.append_right (h : Grammar s (us ++ vs)) (hvs : vs ≠ []) :
    Grammar (Token.textOf vs) vs ∧
      ∀ d, .dollar d ∈ ofText (Token.textOf vs) → .dollar d ∈ ofText s := by
  obtain ⟨ps, hr, hts⟩ := h
  obtain ⟨ps₁, ps₂, rfl, -, h₂⟩ := hts.exists_append hvs
  have hr₂ := hr.append_right
  rw [← h₂.textOf_eq] at hr₂
  refine ⟨⟨ps₂, hr₂, h₂⟩, fun d hd => ?_⟩
  rw [reads_iff.mp hr₂] at hd
  rw [reads_iff.mp hr]
  exact List.mem_append_right ps₁ hd

/-- Tokens at the start of a statement may be taken away. -/
theorem core_of_tokens (hc : c = ';' ∨ c = ',') (hs : split [c] s = [s])
    (h : Grammar s (us ++ vs)) (hvs : vs ≠ []) : Core c s (Token.textOf vs) := by
  obtain ⟨hvs', hdollars⟩ := h.append_right hvs
  have hne : Token.textOf vs ≠ [] := by
    obtain ⟨t, vs, rfl⟩ := List.exists_cons_of_ne_nil hvs
    simp [hvs'.text_ne_nil List.mem_cons_self]
  refine ⟨split_eq_singleton ?_ hne, ?_, hdollars, ?_⟩
  · have hle := Token.length_cutBehind_le c [] us vs
    rwa [← h.split_eq hc, ← hvs'.split_eq hc, hs] at hle
  · rw [← h.textOf_eq, Token.textOf_append]
    exact (List.suffix_append _ _).isInfix
  · rintro ⟨ts, hts⟩
    have heq := (grammar_iff h).mp hts
    obtain ⟨front, t, rfl⟩ := (List.eq_nil_or_concat' vs).resolve_left hvs
    rw [← List.append_assoc] at heq
    obtain ⟨-, ht⟩ := List.append_inj' heq rfl
    exact ⟨front, ht ▸ hvs'⟩

theorem isBlank_separator (hc : c = ';' ∨ c = ',') : isBlank c = false := by
  rcases hc with rfl | rfl <;> decide

namespace Token

/-- Characters that lie in no construct. -/
def chars (s : Text) : List Token := s.map fun d => loose (.plain d)

theorem textOf_chars (s : Text) : textOf (chars s) = s := by
  simp [textOf, chars, text, Piece.text, List.flatMap_map]

/-- What stands before all tokens joins the first statement. -/
theorem cutBehind_append_of_eq_cons (h : cutBehind c v ts = x :: xs) (b : Text) :
    cutBehind c (b ++ v) ts = (b ++ x) :: xs := by
  induction ts generalizing v with
  | nil =>
    rw [cutBehind] at h ⊢
    split at h <;> simp_all
  | cons t ts ih =>
    rw [cutBehind] at h ⊢
    split at h
    · simp_all
    · next ht =>
      rw [if_neg ht, List.append_assoc]
      exact ih h

end Token

/-- Blanks belong to no construct that stands behind them. -/
theorem grammar_append_of_isBlank (hb : ∀ d ∈ b, isBlank d = true) (h : Grammar s ts) :
    Grammar (b ++ s) (Token.chars b ++ ts) ∧
      ofText (b ++ s) = b.map .plain ++ ofText s := by
  obtain ⟨ps, hr, hts⟩ := h
  induction b with
  | nil => exact ⟨⟨ps, hr, hts⟩, rfl⟩
  | cons d b ih =>
    have hd := hb d List.mem_cons_self
    obtain ⟨⟨qs, hrq, htq⟩, hq⟩ := ih fun e he => hb e (List.mem_cons_of_mem d he)
    have hdollar : d ≠ '$' := ne_of_isBlank hd (by decide)
    have hopener : ∀ k : Construct, ¬ k.opener <+: .plain d :: qs := by
      rintro k ⟨rest, hrest⟩
      cases k <;> cases hrest <;> exact absurd hd (by decide)
    refine ⟨⟨.plain d :: qs, .cons (.plain hdollar) hrq, .loose hopener htq⟩, ?_⟩
    rw [List.cons_append, (Starts.plain hdollar).ofText_eq, hq]
    rfl

theorem takeWhile_append_trimStart (s : Text) : s.takeWhile isBlank ++ trimStart s = s :=
  List.takeWhile_append_dropWhile

/-- Blanks before a statement may be taken away. -/
theorem core_trimStart (hc : c = ';' ∨ c = ',') (hs : split [c] s = [s]) (hne : trimStart s ≠ []) :
    Core c s (trimStart s) := by
  obtain ⟨ts, hts⟩ : ∃ ts, Grammar (trimStart s) ts := ⟨_, grammar_ofText _⟩
  have hb : ∀ d ∈ s.takeWhile isBlank, isBlank d = true := fun d => List.mem_takeWhile_imp
  obtain ⟨hwhole, -⟩ := grammar_append_of_isBlank hb hts
  rw [takeWhile_append_trimStart] at hwhole
  have htext := hts.textOf_eq
  have hts' : ts ≠ [] := by
    rintro rfl
    exact hne htext.symm
  exact htext ▸ core_of_tokens hc hs hwhole hts'

/-- Where no dollar sign follows, no piece reaches over the end of a text. -/
theorem exists_append_of_starts {p : Piece} (h : Starts (x ++ v) p y) (hx : x ≠ [])
    (hv : '$' ∉ v) : ∃ z, x = p.text ++ z ∧ y = z ++ v := by
  obtain ⟨z, hz, hzv⟩ | ⟨z, hz, hy⟩ := List.append_eq_append_iff.mp h.eq_append
  · have hnil : z = [] := by
      by_contra hne
      cases p with
      | plain d => simp_all [Piece.text, List.singleton_eq_append_iff]
      | dollar d =>
        obtain ⟨front, rfl⟩ := h.exists_front
        have hlast : z.getLast? = some '$' := by
          rw [← List.getLast?_append_of_ne_nil x hne, ← hz, Piece.text, List.getLast?_concat]
        exact hv (hzv ▸ List.mem_append_left _ (List.mem_of_getLast? hlast))
    subst hnil
    exact ⟨[], by simpa using hz.symm, by simpa using hzv.symm⟩
  · exact ⟨z, hz, hy⟩

theorem ofText_append_of_not_mem (hv : '$' ∉ v) (x : Text) :
    ofText (x ++ v) = ofText x ++ ofText v := by
  have hr : Reads (x ++ v) (ofText (x ++ v)) := reads_iff.mpr rfl
  generalize ofText (x ++ v) = ps at hr ⊢
  generalize hxv : x ++ v = s at hr
  induction hr generalizing x with
  | nil =>
    obtain ⟨rfl, rfl⟩ := List.append_eq_nil_iff.mp hxv
    simp
  | @cons s rest p ps hp hr ih =>
    subst hxv
    by_cases hx : x = []
    · rw [hx, List.nil_append] at hp
      rw [hx, ofText_nil, List.nil_append, hp.ofText_eq, reads_iff.mp hr]
    · obtain ⟨y, rfl, rfl⟩ := exists_append_of_starts hp hx hv
      rw [(hp.shorten (List.prefix_append y v)).ofText_eq, ih y rfl, List.cons_append]

/-- Text without dollar signs may be taken away behind a statement. -/
theorem split_eq_of_append (hc : c = ';' ∨ c = ',') (hv : '$' ∉ v) (hx : x ≠ [])
    (hs : split [c] (x ++ v) = [x ++ v]) : split [c] x = [x] := by
  refine split_eq_singleton ?_ hx
  by_contra hlong
  match hsplit : split [c] x with
  | [] | [_] => simp [hsplit] at hlong
  | y :: z :: zs =>
    have hflat := flatten_split [c] x
    have hpieces : ofText x = ofText [y].flatten ++ ofText (z :: zs).flatten :=
      ofText_of_split hsplit
    obtain ⟨us, hus⟩ := ends_of_split hc hsplit (List.cons_ne_nil z zs)
    rw [hsplit, List.flatten_cons] at hflat
    rw [List.flatten_singleton] at hpieces
    have hz : z ≠ [] := ne_nil_of_mem_scan (hsplit ▸ List.mem_cons_of_mem y List.mem_cons_self)
    generalize hr : (z :: zs).flatten = r at hflat hpieces
    have hrest : ofText (y ++ (r ++ v)) = ofText y ++ ofText (r ++ v) := by
      rw [← List.append_assoc, hflat, ofText_append_of_not_mem hv, hpieces, List.append_assoc,
        ← ofText_append_of_not_mem hv]
    have hwhole := hus.append hc hrest (grammar_ofText (r ++ v))
    rw [← List.append_assoc, hflat] at hwhole
    have hnil := (grammar_ofText (r ++ v)).textOf_eq
    rw [hwhole.eq_nil_of_split hc hs, Token.textOf_nil] at hnil
    simp [← hr, hz] at hnil

/-- Blanks behind a statement may be taken away. -/
theorem core_trimEnd (hc : c = ';' ∨ c = ',') (hs : split [c] s = [s]) (hne : trimEnd s ≠ []) :
    Core c s (trimEnd s) := by
  have hcut := trimEnd_append_rtakeWhile s
  have hb : ∀ d ∈ s.rtakeWhile isBlank, isBlank d = true := fun d => List.mem_rtakeWhile_imp
  generalize s.rtakeWhile isBlank = b at hcut hb
  generalize trimEnd s = x at hcut hne ⊢
  subst hcut
  have hdollar : '$' ∉ b := not_mem_of_forall hb (by decide)
  have hpieces := ofText_append_of_not_mem hdollar x
  refine ⟨split_eq_of_append hc hdollar hne hs, (List.prefix_append x b).isInfix, ?_, ?_⟩
  · intro d hd
    rw [hpieces]
    exact List.mem_append_left _ hd
  · intro hends
    obtain rfl : b = [] := by
      by_contra hbn
      have hlast := hends.getLast?_eq
      rw [List.getLast?_append_of_ne_nil x hbn] at hlast
      have hblank := hb c (List.mem_of_getLast? hlast)
      simp [isBlank_separator hc] at hblank
    simpa using hends

/-- A statement behind blanks is a statement together with them. -/
theorem split_append_of_isBlank (hc : c = ';' ∨ c = ',') (hb : ∀ d ∈ b, isBlank d = true)
    (hs : split [c] s = [s]) : split [c] (b ++ s) = [b ++ s] := by
  have hts := grammar_ofText s
  have hmem : .loose (.plain c) ∉ Token.chars b := by
    intro hm
    obtain ⟨d, hd, heq⟩ := List.mem_map.mp hm
    obtain rfl : d = c := by simpa using heq
    have hblank := hb d hd
    simp [isBlank_separator hc] at hblank
  rw [hts.split_eq hc] at hs
  have hcut := Token.cutBehind_append_of_eq_cons hs b
  rw [(grammar_append_of_isBlank hb hts).1.split_eq hc, Token.cutBehind_append hmem,
    Token.textOf_chars, List.nil_append, ← hcut, List.append_nil]

theorem isInfix_of_isInfix_append {d : Text} (hd : IsTag d) (hb : ∀ e ∈ b, isBlank e = true)
    (h : d <:+: b ++ y) : d <:+: y := by
  induction b with
  | nil => exact h
  | cons e b ih =>
    obtain hp | hi := List.infix_cons_iff.mp h
    · obtain ⟨t, rfl⟩ := hd.exists_tail
      obtain rfl : '$' = e := (List.cons_prefix_cons.mp hp).1
      exact absurd (hb '$' List.mem_cons_self) (by decide)
    · exact ih (fun a ha => hb a (List.mem_cons_of_mem e ha)) hi

/-- Statements may follow each other also with blanks before them. -/
theorem Precedes.append_of_isBlank (h : Precedes c x y) (hb : ∀ d ∈ b, isBlank d = true)
    (hb' : ∀ d ∈ b', isBlank d = true) : Precedes c (b ++ x) (b' ++ y) where
  ends := by
    obtain ⟨ts, hts⟩ := h.ends
    refine ⟨Token.chars b ++ ts, ?_⟩
    rw [List.append_assoc]
    exact (grammar_append_of_isBlank hb hts).1
  leavesOpen d hd htag hi := by
    rw [(grammar_append_of_isBlank hb (grammar_ofText x)).2] at hd
    have hx : .dollar d ∈ ofText x := by simpa using hd
    exact h.leavesOpen d hx htag (isInfix_of_isInfix_append htag hb' hi)

/-- Statements are told from each other by what they are without the blanks before them. -/
theorem split_flatten_of_trimStart (hc : c = ';' ∨ c = ',')
    (h : (xs.map trimStart).Pairwise (Precedes c))
    (hxs : ∀ x ∈ xs, split [c] (trimStart x) = [trimStart x]) : split [c] xs.flatten = xs := by
  have hb (x : Text) : ∀ d ∈ x.takeWhile isBlank, isBlank d = true :=
    fun d => List.mem_takeWhile_imp
  refine split_flatten_of_pairwise hc ((List.pairwise_map.mp h).imp fun {x y} hxy => ?_) ?_
  · have hblanks := hxy.append_of_isBlank (hb x) (hb y)
    rwa [takeWhile_append_trimStart, takeWhile_append_trimStart] at hblanks
  · intro x hx
    have hblanks := split_append_of_isBlank hc (hb x) (hxs x hx)
    rwa [takeWhile_append_trimStart] at hblanks

end SchemaDump.Statement
