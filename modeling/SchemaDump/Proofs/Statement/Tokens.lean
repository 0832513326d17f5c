import SchemaDump.Proofs.Statement.Grammar

/-! Places in a text that is told by tokens. Each lies in one token, and what is no code ends in a
closer unless the text ends in it. -/
namespace SchemaDump

namespace Piece

variable {s t tag : Text} {p : Piece} {ps : List Piece}

theorem IsTag.exists_front (h : IsTag tag) : ∃ front, tag = front ++ ['$'] := by
  cases h with
  | bare => exact ⟨['$'], rfl⟩
  | @named c name _ _ => exact ⟨'$' :: c :: name, rfl⟩

theorem Starts.exists_front {rest : Text} (h : Starts s (.dollar t) rest) :
    ∃ front, t = front ++ ['$'] := by
  cases h with
  | @quotation tag body _ htag _ =>
    obtain ⟨front, hf⟩ := htag.exists_front
    exact ⟨tag ++ (body ++ front), by simp [hf]⟩
  | openTag htag _ => exact htag.exists_front
  | sign _ => exact ⟨[], rfl⟩

theorem Reads.exists_starts (h : Reads s ps) (hp : p ∈ ps) : ∃ u rest, Starts u p rest := by
  induction h with
  | nil => simp at hp
  | @cons u rest q qs hq _ ih =>
    rcases List.mem_cons.mp hp with rfl | hp
    · exact ⟨u, rest, hq⟩
    · exact ih hp

end Piece

namespace Statement

open Piece

variable {s x y : Text} {c : Char} {ps qs u : List Piece} {t : Token} {ts us vs : List Token}
  {k : Construct} {p : Piece}

namespace Token

/-- A character that stands in no construct and in no dollar quotation. -/
def isCode : Token → Bool
  | loose (.plain _) => true
  | _ => false

/-- The text of tokens that follow each other. -/
def textOf (ts : List Token) : Text := ts.flatMap text

@[simp] theorem textOf_nil : textOf [] = [] := rfl

@[simp] theorem textOf_cons (t : Token) (ts : List Token) :
    textOf (t :: ts) = t.text ++ textOf ts := List.flatMap_cons ..

@[simp] theorem textOf_append (ts us : List Token) : textOf (ts ++ us) = textOf ts ++ textOf us :=
  List.flatMap_append

/-- A place before the end of the text is the place of some character of one token. -/
theorem exists_token_at (h : textOf ts = x ++ y) (hy : y ≠ []) :
    ∃ us t vs x' y', ts = us ++ t :: vs ∧ t.text = x' ++ y' ∧ y' ≠ [] ∧ x = textOf us ++ x' ∧
      y = y' ++ textOf vs := by
  induction ts generalizing x with
  | nil => simp_all
  | cons t ts ih =>
    rw [textOf_cons] at h
    obtain ⟨z, hx, hz⟩ | ⟨y', ht, hy'⟩ := List.append_eq_append_iff.mp h
    · obtain ⟨us, t', vs, x', y', rfl, ht', hne, rfl, rfl⟩ := ih hz
      exact ⟨t :: us, t', vs, x', y', rfl, ht', hne, by simp [hx], rfl⟩
    · by_cases hn : y' = []
      · subst hn
        obtain ⟨us, t', vs, x', y', rfl, ht', hne, hx, rfl⟩ :=
          ih (x := []) (by simpa using hy'.symm)
        refine ⟨t :: us, t', vs, x', y', rfl, ht', hne, ?_, rfl⟩
        rw [textOf_cons, List.append_assoc, ← hx, ht, List.append_nil, List.append_nil]
      · exact ⟨[], t, ts, x, y', rfl, ht, hn, rfl, hy'⟩

end Token

theorem Tokens.textOf_eq (h : Tokens ps ts) : Token.textOf ts = Piece.textOf ps := by
  induction h with
  | nil => rfl
  | @construct k ps ts _ ih =>
    have := congrArg Piece.textOf (k.body_append_after ps)
    simp only [Piece.textOf_append] at this
    simp [ih, Token.text, ← this]
  | loose _ _ ih => simp [ih, Token.text]

theorem Grammar.textOf_eq (h : Grammar s ts) : Token.textOf ts = s := by
  obtain ⟨ps, hr, ht⟩ := h
  rw [ht.textOf_eq, hr.textOf_eq]

theorem Tokens.exists_right (h : Tokens ps (us ++ vs)) : ∃ qs, qs <:+ ps ∧ Tokens qs vs := by
  induction us generalizing ps with
  | nil => exact ⟨ps, List.suffix_rfl, h⟩
  | cons u us ih =>
    cases h with
    | @construct k ps _ h =>
      obtain ⟨qs, hs, hq⟩ := ih h
      refine ⟨qs, (hs.trans ?_).trans (List.suffix_append _ _), hq⟩
      exact ⟨k.body ps, k.body_append_after ps⟩
    | loose _ h =>
      obtain ⟨qs, hs, hq⟩ := ih h
      exact ⟨qs, hs.trans (List.suffix_cons _ _), hq⟩

/-- The characters in which constructs and dollar quotations end. -/
def closers : List Char := ['\n', '\r', '/', '\x27', '"', '$']

theorem exists_front_of_isCloser (h : k.isCloser u = true) :
    ∃ front c, Piece.textOf u = front ++ [c] ∧ c ∈ closers := by
  cases k with
  | lineComment =>
    rcases (by simpa [Construct.isCloser] using h : u = [.plain '\r'] ∨ u = [.plain '\n'])
      with rfl | rfl
    · exact ⟨[], '\r', rfl, by decide⟩
    · exact ⟨[], '\n', rfl, by decide⟩
  | blockComment =>
    obtain rfl : u = [.plain '*', .plain '/'] := by simpa [Construct.isCloser] using h
    exact ⟨['*'], '/', rfl, by decide⟩
  | string =>
    obtain rfl : u = [.plain '\x27'] := by simpa [Construct.isCloser] using h
    exact ⟨[], '\x27', rfl, by decide⟩
  | quotedIdentifier =>
    obtain rfl : u = [.plain '"'] := by simpa [Construct.isCloser] using h
    exact ⟨[], '"', rfl, by decide⟩

/-- A construct that leaves anything has its closer. -/
theorem Construct.exists_closer (h : k.after ps ≠ []) :
    ∃ front u, k.body ps = front ++ u ∧ k.isCloser u = true := by
  have hlt : (k.units ps).findIdx k.isCloser < (k.units ps).length := by
    by_contra hn
    refine h ?_
    rw [Construct.after, Construct.size, List.drop_eq_nil_of_le (by omega), List.flatten_nil]
  refine ⟨((k.units ps).take ((k.units ps).findIdx k.isCloser)).flatten,
    (k.units ps)[(k.units ps).findIdx k.isCloser], ?_, List.findIdx_getElem⟩
  rw [Construct.body, Construct.size, List.take_succ_eq_append_getElem hlt, List.flatten_append]
  simp

/-- What is no code and does not end the text ends in a closer. -/
theorem Grammar.exists_closer (h : Grammar s (us ++ t :: vs)) (ht : t.isCode = false)
    (hv : vs ≠ []) : ∃ front c, t.text = front ++ [c] ∧ c ∈ closers := by
  obtain ⟨ps, hr, hts⟩ := h
  obtain ⟨qs, hq, hts⟩ := hts.exists_right
  cases hts with
  | @construct k ps' _ hvs =>
    have ha : k.after ps' ≠ [] := by
      intro hn
      exact hv (tokens_nil (hn ▸ hvs))
    obtain ⟨front, u, hb, hu⟩ := Construct.exists_closer ha
    obtain ⟨front', c, hc, hm⟩ := exists_front_of_isCloser hu
    exact ⟨Piece.textOf (k.opener ++ front) ++ front', c, by simp [Token.text, hb, hc], hm⟩
  | @loose p _ _ _ _ =>
    cases p with
    | plain c => simp [Token.isCode] at ht
    | dollar d =>
      obtain ⟨_, _, hs⟩ := hr.exists_starts (hq.subset List.mem_cons_self)
      obtain ⟨front, hf⟩ := hs.exists_front
      exact ⟨front, '$', hf, by decide⟩

end Statement
end SchemaDump
