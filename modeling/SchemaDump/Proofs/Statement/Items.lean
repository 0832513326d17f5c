import SchemaDump.Proofs.Blanks
import SchemaDump.Proofs.Statement.Inert
import SchemaDump.Proofs.Statement.Parentheses

/-! The items of a list: what stands between its commas outside parentheses, comments and quotes. Where
nothing is left open before a comma, the items of what stands before it are followed by those of what
stands behind. -/
namespace SchemaDump.Statement

open Piece Text

variable {s x y b e : Text} {xs : List Text} {d : Char} {n : Nat} {t : Token} {ts us : List Token}
  {ps : List Piece}

namespace Token

def comma : Token := loose (.plain ',')

/-- How many parentheses are open behind the token if `n` are before it. -/
def depth (n : Nat) (t : Token) : Nat :=
  if t = opening then n + 1 else if t = closing then n - 1 else n

/-- Tokens cut at the commas outside parentheses, when `n` are open and the first item has begun with
`sofar`. -/
def items (n : Nat) (sofar : List Token) : List Token → List (List Token)
  | [] => [sofar]
  | t :: ts =>
    if n = 0 ∧ t = comma then sofar :: items 0 [] ts
    else items (depth n t) (sofar ++ [t]) ts

theorem closes_depth (h : closes n (t :: ts) = true) : closes (depth n t) ts = true := by
  by_cases ho : t = opening
  · subst ho
    exact h
  · by_cases hc : t = closing
    · subst hc
      cases n with
      | zero => simp at h
      | succ n => exact h
    · rw [closes_other ho hc] at h
      simpa [depth, ho, hc] using h

/-- Where all parentheses are closed, a comma ends the last item. -/
theorem items_append_comma (h : closes n us = true) (sofar vs : List Token) :
    items n sofar (us ++ comma :: vs) = items n sofar us ++ items 0 [] vs := by
  induction us generalizing n sofar with
  | nil =>
    obtain rfl : n = 0 := by simpa using h
    rfl
  | cons t us ih =>
    rw [List.cons_append, items, items]
    split
    · next hcut =>
      obtain ⟨rfl, rfl⟩ := hcut
      have hclosed : closes 0 us = true := closes_depth h
      rw [ih hclosed, List.cons_append]
    · exact ih (closes_depth h) _

/-- Tokens that are no commas and no parentheses join the first item. -/
theorem items_append_of_forall (h : ∀ t ∈ us, t ≠ comma ∧ t ≠ opening ∧ t ≠ closing) (n : Nat)
    (sofar vs : List Token) : items n sofar (us ++ vs) = items n (sofar ++ us) vs := by
  induction us generalizing sofar with
  | nil => simp
  | cons t us ih =>
    obtain ⟨⟨hcomma, ho, hc⟩, hus⟩ := List.forall_mem_cons.mp h
    rw [List.cons_append, items, if_neg fun hcut => hcomma hcut.2, depth, if_neg ho, if_neg hc,
      ih hus, List.append_assoc, List.singleton_append]

theorem exists_first (n : Nat) (ts : List Token) :
    ∃ first rest, ∀ sofar, items n sofar ts = (sofar ++ first) :: rest := by
  induction ts generalizing n with
  | nil => exact ⟨[], [], fun sofar => by rw [items, List.append_nil]⟩
  | cons t ts ih =>
    by_cases hcut : n = 0 ∧ t = comma
    · exact ⟨[], items 0 [] ts, fun sofar => by rw [items, if_pos hcut, List.append_nil]⟩
    · obtain ⟨first, rest, h⟩ := ih (depth n t)
      exact ⟨t :: first, rest, fun sofar => by simp [items, hcut, h]⟩

/-- A token at the end that is no comma joins the last item. -/
theorem exists_last (n : Nat) (sofar ts : List Token) :
    ∃ fronts last, items n sofar ts = fronts ++ [last] ∧
      ∀ t ≠ comma, items n sofar (ts ++ [t]) = fronts ++ [last ++ [t]] := by
  induction ts generalizing n sofar with
  | nil => exact ⟨[], sofar, rfl, fun t ht => by simp [items, ht]⟩
  | cons u ts ih =>
    by_cases hcut : n = 0 ∧ u = comma
    · obtain ⟨fronts, last, h, hjoin⟩ := ih 0 []
      refine ⟨sofar :: fronts, last, ?_, fun t ht => ?_⟩
      · rw [items, if_pos hcut, h, List.cons_append]
      · rw [List.cons_append, items, if_pos hcut, hjoin t ht, List.cons_append]
    · obtain ⟨fronts, last, h, hjoin⟩ := ih (depth n u) (sofar ++ [u])
      refine ⟨fronts, last, ?_, fun t ht => ?_⟩
      · rw [items, if_neg hcut, h]
      · rw [List.cons_append, items, if_neg hcut, hjoin t ht]

/-- Nothing is lost but the commas. -/
theorem intercalate_items (n : Nat) (sofar ts : List Token) :
    [comma].intercalate (items n sofar ts) = sofar ++ ts := by
  induction ts generalizing n sofar with
  | nil => simp [items]
  | cons t ts ih =>
    rw [items]
    split
    · next hcut =>
      obtain ⟨first, rest, h⟩ := exists_first 0 ts
      have hrest := ih 0 []
      rw [h []] at hrest ⊢
      rw [List.intercalate_cons_cons, hrest, hcut.2]
      simp
    · rw [ih]
      simp

end Token

/-- The items of a list, trimmed. A blank list has none. -/
def items (s : Text) : List Text :=
  if trim s = [] then [] else (Token.items 0 [] (Token.ofText s)).map fun ts => trim (Token.textOf ts)

/-- A comma parts `x` from `y`: it stands in code, the parentheses before it match, and no tag left
open before it is closed behind it. -/
structure Parts (x y : Text) : Prop where
  isCode : (Token.ofText (x ++ [','])).getLast? = some Token.comma
  balanced : Balanced (Token.ofText x)
  leavesOpen : ∀ p ∈ Piece.ofText x, IsTag p.text → ¬ p.text <:+: y

instance (x y : Text) : Decidable (Parts x y) :=
  decidable_of_iff ((Token.ofText (x ++ [','])).getLast? = some Token.comma ∧
    Balanced (Token.ofText x) ∧ ∀ p ∈ Piece.ofText x, IsTag p.text → ¬ p.text <:+: y)
    ⟨fun ⟨hcode, hbalanced, htags⟩ => ⟨hcode, hbalanced, htags⟩,
      fun h => ⟨h.isCode, h.balanced, h.leavesOpen⟩⟩

namespace Construct

theorem not_mem_opener (hd : isBlank d = true) (k : Construct) : .plain d ∉ k.opener := by
  have hopener : ∀ k : Construct, ∀ p ∈ k.opener, ∃ c, p = .plain c ∧ isBlank c = false := by
    intro k
    cases k <;> simp [opener] <;> decide
  intro hm
  obtain ⟨c, hc, hblank⟩ := hopener k _ hm
  cases hc
  rw [hd] at hblank
  cases hblank

theorem units_concat (hd : isBlank d = true) (k : Construct) (ps : List Piece) :
    k.units (ps ++ [.plain d]) = k.units ps ++ [[.plain d]] := by
  have hslash : d ≠ '/' := ne_of_isBlank hd (by decide)
  have hstar : d ≠ '*' := ne_of_isBlank hd (by decide)
  cases k with
  | lineComment | string | quotedIdentifier => simp [units]
  | blockComment =>
    change pairs (ps ++ [.plain d]) = pairs ps ++ [[.plain d]]
    induction ps using pairs.induct with
    | case1 ps ih | case2 ps ih => simp [pairs, ih]
    | case3 p ps hopen hclose ih =>
      rw [pairs.eq_3 p ps hopen hclose, List.cons_append, List.cons_append, ← ih]
      refine pairs.eq_3 p _ (fun qs hp hqs => ?_) (fun qs hp hqs => ?_)
      · cases ps <;> simp_all
      · cases ps <;> simp_all
    | case4 => exact pairs.eq_3 _ [] (by simp) (by simp)

/-- A blank at the end belongs to a construct that is open there, and to no other. -/
theorem body_concat (hd : isBlank d = true) (k : Construct) (ps : List Piece) :
    (k.body (ps ++ [.plain d]) = k.body ps ∧
        k.after (ps ++ [.plain d]) = k.after ps ++ [.plain d]) ∨
      (k.after ps = [] ∧ k.body (ps ++ [.plain d]) = k.body ps ++ [.plain d] ∧
        k.after (ps ++ [.plain d]) = []) := by
  have hunits := k.units_concat hd ps
  by_cases hlt : (k.units ps).findIdx k.isCloser < (k.units ps).length
  · left
    have hsize : k.size (ps ++ [.plain d]) = k.size ps := by
      rw [size, size, hunits, List.findIdx_append, if_pos hlt]
    have hle : k.size ps ≤ (k.units ps).length := hlt
    rw [body, after, hsize, hunits, List.take_append_of_le_length hle,
      List.drop_append_of_le_length hle, List.flatten_append]
    exact ⟨rfl, by simp [after]⟩
  · right
    have hsize : (k.units ps).length < k.size (ps ++ [.plain d]) := by
      rw [size, hunits, List.findIdx_append, if_neg hlt]
      omega
    have hafter : k.after ps = [] := by
      rw [after, List.drop_eq_nil_of_le (by rw [size]; omega), List.flatten_nil]
    have hafter' : k.after (ps ++ [.plain d]) = [] := by
      rw [after, hunits, List.drop_eq_nil_of_le (by rw [List.length_append]; exact hsize),
        List.flatten_nil]
    have hbody := k.body_append_after (ps ++ [.plain d])
    have hbody' := k.body_append_after ps
    rw [hafter', List.append_nil] at hbody
    rw [hafter, List.append_nil] at hbody'
    exact ⟨hafter, by rw [hbody, hbody'], hafter'⟩

end Construct

/-- A blank at the end is a token of its own or joins an open construct. -/
theorem Tokens.exists_concat (hd : isBlank d = true) (h : Tokens ps ts) :
    ∃ us, Tokens (ps ++ [.plain d]) us ∧ (us = ts ++ [.loose (.plain d)] ∨
      ∃ front k body, ts = front ++ [.construct k body] ∧
        us = front ++ [.construct k (body ++ [.plain d])]) := by
  have hopener (ps : List Piece) (hk : ∀ k : Construct, ¬ k.opener <+: ps)
      (k : Construct) : ¬ k.opener <+: ps ++ [.plain d] := by
    intro h
    obtain heq | h := List.prefix_concat_iff.mp h
    · exact k.not_mem_opener hd (heq ▸ List.mem_concat_self)
    · exact hk k h
  induction h with
  | nil =>
    refine ⟨_, .loose (hopener [] fun k hk => ?_) .nil, Or.inl rfl⟩
    cases k <;> cases List.prefix_nil.mp hk
  | @construct k ps ts hts ih =>
    obtain ⟨us, hus, hcases⟩ := ih
    obtain ⟨hbody, hafter⟩ | ⟨hnil, hbody, hafter⟩ := k.body_concat hd ps
    · refine ⟨.construct k (k.opener ++ k.body ps) :: us, ?_, ?_⟩
      · rw [List.append_assoc, ← hbody]
        exact .construct (hafter ▸ hus)
      · obtain rfl | ⟨front, k', body, rfl, rfl⟩ := hcases
        · exact Or.inl rfl
        · exact Or.inr ⟨_ :: front, k', body, rfl, rfl⟩
    · obtain rfl := tokens_nil (hnil ▸ hts)
      have hopen : Tokens (k.after (ps ++ [.plain d])) [] := by
        rw [hafter]
        exact .nil
      have hjoined := Tokens.construct hopen
      rw [hbody, ← List.append_assoc, ← List.append_assoc] at hjoined
      exact ⟨_, hjoined, Or.inr ⟨[], k, _, rfl, rfl⟩⟩
  | @loose p ps ts hk hts ih =>
    obtain ⟨us, hus, hcases⟩ := ih
    refine ⟨.loose p :: us, .loose (hopener _ hk) hus, ?_⟩
    obtain rfl | ⟨front, k', body, rfl, rfl⟩ := hcases
    · exact Or.inl rfl
    · exact Or.inr ⟨_ :: front, k', body, rfl, rfl⟩

open Token

theorem trim_textOf_concat (hd : isBlank d = true) (ts : List Token) :
    trim (Token.textOf ts ++ [d]) = trim (Token.textOf ts) :=
  (trim_append_of_isBlank (by simpa using hd) _).2

theorem ofText_concat (hc : d ≠ '$') (s : Text) :
    Piece.ofText (s ++ [d]) = Piece.ofText s ++ [.plain d] := by
  have hdollar : '$' ∉ [d] := by simpa using hc.symm
  exact ofText_append_plain hdollar s

theorem items_concat (hd : isBlank d = true) (s : Text) : items (s ++ [d]) = items s := by
  have htrim : trim (s ++ [d]) = trim s := (trim_append_of_isBlank (by simpa using hd) s).2
  have hdollar : d ≠ '$' := ne_of_isBlank hd (by decide)
  have hcomma : d ≠ ',' := ne_of_isBlank hd (by decide)
  obtain ⟨us, hus, hcases⟩ := (tokens_ofPieces (Piece.ofText s)).exists_concat hd
  have htokens : Token.ofText (s ++ [d]) = us := by
    rw [Token.ofText, ofText_concat hdollar]
    exact tokens_unique hus (tokens_ofPieces _)
  have hne (k : Construct) (ps : List Piece) : Token.construct k ps ≠ comma := by simp [comma]
  rw [items, items, htrim, htokens]
  congr 1
  obtain rfl | ⟨front, k, body, hts, rfl⟩ := hcases
  · obtain ⟨fronts, last, h, hjoin⟩ := exists_last 0 [] (ofPieces (Piece.ofText s))
    rw [Token.ofText, h, hjoin]
    · simp [Token.text, Piece.text, trim_textOf_concat hd]
    · simpa [comma] using hcomma
  · obtain ⟨fronts, last, -, hjoin⟩ := exists_last 0 [] front
    rw [Token.ofText, hts, hjoin _ (hne k body), hjoin _ (hne k _)]
    have htext := trim_textOf_concat hd (last ++ [.construct k body])
    simpa [Token.text, Piece.text] using htext

/-- Blanks at the end make no difference to the items. -/
theorem items_append_of_isBlank (hb : ∀ c ∈ b, isBlank c = true) (s : Text) :
    items (s ++ b) = items s := by
  induction b generalizing s with
  | nil => rw [List.append_nil]
  | cons d b ih =>
    obtain ⟨hd, hb⟩ := List.forall_mem_cons.mp hb
    rw [List.append_cons, ih hb, items_concat hd]

theorem ofText_eq_of_grammar (h : Grammar s ts) : Token.ofText s = ts :=
  (grammar_iff h).mp (grammar_ofText s)

/-- Nor do blanks before them. -/
theorem items_append_of_isBlank_left (hb : ∀ c ∈ b, isBlank c = true) (s : Text) :
    items (b ++ s) = items s := by
  have hgrammar := (grammar_append_of_isBlank hb (grammar_ofText s)).1
  have hchars : ∀ t ∈ chars b, t ≠ comma ∧ t ≠ opening ∧ t ≠ closing := by
    intro t ht
    obtain ⟨d, hd, rfl⟩ := List.mem_map.mp ht
    have hblank := hb d hd
    refine ⟨?_, ?_, ?_⟩ <;> rintro ⟨⟩ <;> exact absurd hblank (by decide)
  obtain ⟨first, rest, h⟩ := exists_first 0 (Token.ofText s)
  rw [items, items, ofText_eq_of_grammar hgrammar, items_append_of_forall hchars, h, h,
    (trim_append_of_isBlank hb s).1]
  simp [textOf_chars, (trim_append_of_isBlank hb _).1]

/-- A comma that stands in code is a token of its own. -/
theorem ofText_comma (h : (Token.ofText (x ++ [','])).getLast? = some comma) :
    Token.ofText (x ++ [',']) = Token.ofText x ++ [comma] := by
  obtain ⟨ts, hts⟩ := List.getLast?_eq_some_iff.mp h
  have htokens : Tokens (Piece.ofText x ++ [.plain ',']) (ts ++ [comma]) := by
    rw [← ofText_concat (by decide), ← hts]
    exact tokens_ofPieces _
  obtain ⟨ps₁, ps₂, hps, h₁, h₂⟩ := htokens.exists_append (List.cons_ne_nil _ _)
  have hcomma : ps₂ = [.plain ','] := by
    cases h₂ with
    | loose _ hnil => rw [eq_nil_of_tokens_nil hnil]
  obtain ⟨rfl, -⟩ := List.append_inj' hps (by rw [hcomma])
  rw [hts, Token.ofText, tokens_unique h₁ (tokens_ofPieces _)]

/-- The comma is a token, and both sides have the tokens that they have alone. -/
theorem Parts.ofText_append (h : Parts x y) :
    Token.ofText (x ++ ',' :: y) = Token.ofText x ++ comma :: Token.ofText y := by
  have hends : Grammar (x ++ [',']) (Token.ofText x ++ [comma]) :=
    ofText_comma h.isCode ▸ grammar_ofText _
  have hread : Piece.ofText (x ++ [','] ++ y) = Piece.ofText (x ++ [',']) ++ Piece.ofText y := by
    refine Ends.ofText_append (Or.inr rfl) ⟨_, hends⟩ fun d hd htag => ?_
    rw [ofText_concat (by decide)] at hd
    exact h.leavesOpen (.dollar d) (by simpa using hd) htag
  have hboth := hends.append (Or.inr rfl) hread (grammar_ofText y)
  rw [List.append_assoc, List.singleton_append] at hboth
  exact ofText_eq_of_grammar hboth

/-- The items on either side of the comma. -/
theorem Parts.items_append (h : Parts x y) (hx : trim x ≠ []) (hy : trim y ≠ []) :
    items (x ++ ',' :: y) = items x ++ items y := by
  have hne : trim (x ++ ',' :: y) ≠ [] := by
    rw [Ne, trim_eq_nil_iff]
    intro hblank
    exact absurd (hblank ',' (by simp)) (by decide)
  rw [items, items, items, if_neg hne, if_neg hx, if_neg hy, h.ofText_append,
    items_append_comma h.balanced, List.map_append]

/-- A tag that stands in none of the texts stands in no text made of them, commas and blanks. -/
theorem not_isInfix_append_flatMap (htag : IsTag e) (hb : ∀ c ∈ b, isBlank c = true)
    (hx : ¬ e <:+: x) (hxs : ∀ z ∈ xs, ¬ e <:+: z) :
    ¬ e <:+: x ++ xs.flatMap fun z => ',' :: b ++ z := by
  have hcomma : ',' ∉ e := htag.not_mem (by decide)
  induction xs generalizing x with
  | nil => simpa using hx
  | cons z xs ih =>
    obtain ⟨hz, hrest⟩ := List.forall_mem_cons.mp hxs
    rw [List.flatMap_cons, List.cons_append, List.cons_append, isInfix_append_cons hcomma, not_or,
      List.append_assoc]
    exact ⟨hx, fun hi => ih hz hrest (isInfix_of_isInfix_append htag hb hi)⟩

/-- Texts behind commas bring their items if the commas part all that stands before them from all
that stands behind. -/
theorem items_append_flatMap (hb : ∀ c ∈ b, isBlank c = true) (hx : trim x ≠ [])
    (hxs : ∀ z ∈ xs, trim z ≠ []) (hparts : (x :: xs).Pairwise Parts) :
    items (x ++ xs.flatMap fun z => ',' :: b ++ z) = items x ++ xs.flatMap items := by
  induction xs generalizing x with
  | nil => simp
  | cons z xs ih =>
    obtain ⟨hz, hrest⟩ := List.forall_mem_cons.mp hxs
    obtain ⟨hfirst, hpairs⟩ := List.pairwise_cons.mp hparts
    obtain ⟨hxz, hxs'⟩ := List.forall_mem_cons.mp hfirst
    have hbehind : trim (b ++ (z ++ xs.flatMap fun z => ',' :: b ++ z)) ≠ [] := by
      rw [(trim_append_of_isBlank hb _).1, Ne, trim_eq_nil_iff]
      intro hblank
      exact hz (trim_eq_nil_iff.mpr fun c hc => hblank c (List.mem_append_left _ hc))
    have hcut : Parts x (b ++ (z ++ xs.flatMap fun z => ',' :: b ++ z)) := by
      refine ⟨hxz.isCode, hxz.balanced, fun p hp htag hi => ?_⟩
      refine not_isInfix_append_flatMap htag hb (hxz.leavesOpen p hp htag) (fun w hw => ?_)
        (isInfix_of_isInfix_append htag hb hi)
      exact (hxs' w hw).leavesOpen p hp htag
    rw [List.flatMap_cons, List.cons_append, List.cons_append, List.append_assoc,
      hcut.items_append hx hbehind, items_append_of_isBlank_left hb, ih hz hrest hpairs,
      List.flatMap_cons]

/-- A single item is the text itself. -/
theorem items_eq_singleton (h : (items s).length = 1) : items s = [trim s] := by
  rw [items] at h ⊢
  split
  · next hs => simp [hs] at h
  · next hs =>
    rw [if_neg hs, List.length_map, List.length_eq_one_iff] at h
    obtain ⟨ts, hts⟩ := h
    have htext := intercalate_items 0 [] (Token.ofText s)
    rw [hts, List.intercalate_singleton, List.nil_append] at htext
    rw [hts, htext, List.map_singleton, (grammar_ofText s).textOf_eq]

end SchemaDump.Statement
