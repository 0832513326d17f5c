import SchemaDump.Proofs.Statement.Scan

/-! A text told by what stands in it: comments, strings and quoted identifiers, each from its opener
to its end, and pieces that lie in none of these. Statements end behind the separators that lie in
none. -/
namespace SchemaDump.Statement

open Piece

/-- What begins with an opener of its own, and ends with a closer or with the text. -/
inductive Construct where
  | lineComment | blockComment | string | quotedIdentifier
deriving DecidableEq, Repr

namespace Construct

def opener : Construct → List Piece
  | lineComment => [.plain '-', .plain '-']
  | blockComment => [.plain '/', .plain '*']
  | string => [.plain '\x27']
  | quotedIdentifier => [.plain '"']

/-- Pieces with the two characters of each block comment mark together. -/
def pairs : List Piece → List (List Piece)
  | .plain '/' :: .plain '*' :: ps => [.plain '/', .plain '*'] :: pairs ps
  | .plain '*' :: .plain '/' :: ps => [.plain '*', .plain '/'] :: pairs ps
  | p :: ps => [p] :: pairs ps
  | [] => []

/-- The units in which an open construct is read. -/
def units : Construct → List Piece → List (List Piece)
  | blockComment, ps => pairs ps
  | _, ps => ps.map fun p => [p]

def isCloser : Construct → List Piece → Bool
  | lineComment, u => u = [.plain '\r'] || u = [.plain '\n']
  | blockComment, u => u = [.plain '*', .plain '/']
  | string, u => u = [.plain '\x27']
  | quotedIdentifier, u => u = [.plain '"']

/-- How many units an open construct takes: those up to its first closer. -/
def size (k : Construct) (ps : List Piece) : Nat := (k.units ps).findIdx k.isCloser + 1

/-- What an open construct takes. -/
def body (k : Construct) (ps : List Piece) : List Piece := ((k.units ps).take (k.size ps)).flatten

/-- What an open construct leaves. -/
def after (k : Construct) (ps : List Piece) : List Piece := ((k.units ps).drop (k.size ps)).flatten

end Construct

/-- A construct with all its pieces, or a piece that lies in none. -/
inductive Token where
  | construct (k : Construct) (ps : List Piece)
  | loose (p : Piece)
deriving DecidableEq, Repr

namespace Token

def text : Token → Text
  | construct _ ps => textOf ps
  | loose p => p.text

/-- Tokens cut behind each separator that is loose, after the text `sofar`. -/
def cutBehind (c : Char) (sofar : Text) : List Token → List Text
  | [] => if sofar = [] then [] else [sofar]
  | t :: ts =>
    if t = .loose (.plain c) then (sofar ++ t.text) :: cutBehind c [] ts
    else cutBehind c (sofar ++ t.text) ts

end Token

/-- Pieces read as tokens from left to right. -/
inductive Tokens : List Piece → List Token → Prop
  | nil : Tokens [] []
  | construct {k : Construct} {ps : List Piece} {ts : List Token} :
      Tokens (k.after ps) ts → Tokens (k.opener ++ ps) (.construct k (k.opener ++ k.body ps) :: ts)
  | loose {p : Piece} {ps : List Piece} {ts : List Token} :
      (∀ k : Construct, ¬ k.opener <+: p :: ps) → Tokens ps ts → Tokens (p :: ps) (.loose p :: ts)

/-- The text `s` is made of the tokens `ts`. -/
def Grammar (s : Text) (ts : List Token) : Prop := ∃ ps, Reads s ps ∧ Tokens ps ts

variable {s sofar : Text} {c d : Char} {ps qs : List Piece} {ts us : List Token} {k : Construct}
  {m n : Mode} {p : Piece} {u : List Piece}

namespace Construct

theorem flatten_pairs (ps : List Piece) : (pairs ps).flatten = ps := by
  induction ps using pairs.induct with
  | case1 ps ih | case2 ps ih => simp [pairs, ih]
  | case3 p ps h₁ h₂ ih => simp [pairs, ih]
  | case4 => rfl

theorem flatten_units (k : Construct) (ps : List Piece) : (k.units ps).flatten = ps := by
  cases k with
  | blockComment => exact flatten_pairs ps
  | lineComment | string | quotedIdentifier => simp [units, ← List.flatMap_def]

theorem body_append_after (k : Construct) (ps : List Piece) : k.body ps ++ k.after ps = ps := by
  rw [body, after, ← List.flatten_append, List.take_append_drop, flatten_units]

theorem length_after_le (k : Construct) (ps : List Piece) : (k.after ps).length ≤ ps.length := by
  have := congrArg List.length (k.body_append_after ps)
  rw [List.length_append] at this
  omega

theorem body_nil (k : Construct) : k.body [] = [] := by
  cases k <;> rfl

theorem after_nil (k : Construct) : k.after [] = [] := by
  cases k <;> rfl

theorem body_of_units (h : k.units ps = u :: k.units qs) :
    k.body ps = if k.isCloser u then u else u ++ k.body qs := by
  simp only [body, size, h, List.findIdx_cons]
  cases k.isCloser u <;> simp

theorem after_of_units (h : k.units ps = u :: k.units qs) :
    k.after ps = if k.isCloser u then qs else k.after qs := by
  simp only [after, size, h, List.findIdx_cons]
  cases k.isCloser u <;> simp [flatten_units]

/-- The scanner's mode inside a construct. -/
def mode : Construct → Mode
  | lineComment => .lineComment
  | blockComment => .blockComment
  | string => .string
  | quotedIdentifier => .quotedIdentifier

theorem units_dollar (k : Construct) (t : Text) (ps : List Piece) :
    k.units (.dollar t :: ps) = [.dollar t] :: k.units ps := by
  cases k <;> simp [units, pairs]

theorem isCloser_dollar (k : Construct) (t : Text) : k.isCloser [.dollar t] = false := by
  cases k <;> simp [isCloser]

theorem units_plain (h : NoMark k.mode c ps) :
    k.units (.plain c :: ps) = [.plain c] :: k.units ps := by
  cases k with
  | blockComment =>
    refine pairs.eq_3 _ _ (fun qs hc hq => ?_) (fun qs hc hq => ?_)
    · cases hc
      exact absurd (h '*' qs hq) (by decide)
    · cases hc
      exact absurd (h '/' qs hq) (by decide)
  | lineComment | string | quotedIdentifier => rfl

theorem after_mode (k : Construct) (c : Char) :
    k.mode.after c = if k.isCloser [.plain c] then .code else k.mode := by
  cases k with
  | lineComment => simp [mode, isCloser, Mode.after_lineComment]
  | blockComment => simp [mode, isCloser, Mode.after_blockComment]
  | string => simp [mode, isCloser, Mode.after_string]
  | quotedIdentifier => simp [mode, isCloser, Mode.after_quotedIdentifier]

/-- Two characters that make one mark inside a construct leave it open, or are its closer. -/
theorem mark_or_closer (k : Construct) (h : k.mode.afterMark? c d = some n) (ps : List Piece) :
    (n = k.mode ∧ k.body (.plain c :: .plain d :: ps) = .plain c :: .plain d :: k.body ps ∧
      k.after (.plain c :: .plain d :: ps) = k.after ps) ∨
    (n = .code ∧ k.body (.plain c :: .plain d :: ps) = [.plain c, .plain d] ∧
      k.after (.plain c :: .plain d :: ps) = ps) := by
  cases k with
  | lineComment =>
    obtain ⟨rfl, rfl, rfl⟩ : c = '-' ∧ d = '-' ∧ n = .lineComment := by
      unfold Mode.afterMark? at h
      split at h <;> simp_all [mode]
    have hu (qs : List Piece) :
        lineComment.units (.plain '-' :: qs) = [.plain '-'] :: lineComment.units qs := rfl
    left
    simp [body_of_units (hu _), after_of_units (hu _), isCloser, mode]
  | blockComment =>
    obtain ⟨rfl, rfl, rfl⟩ | ⟨rfl, rfl, rfl⟩ : c = '/' ∧ d = '*' ∧ n = .blockComment ∨
        c = '*' ∧ d = '/' ∧ n = .code := by
      unfold Mode.afterMark? at h
      split at h <;> simp_all [mode]
    · have hu : blockComment.units (.plain '/' :: .plain '*' :: ps) =
          [.plain '/', .plain '*'] :: blockComment.units ps := rfl
      left
      simp [body_of_units hu, after_of_units hu, isCloser, mode]
    · have hu : blockComment.units (.plain '*' :: .plain '/' :: ps) =
          [.plain '*', .plain '/'] :: blockComment.units ps := rfl
      right
      simp [body_of_units hu, after_of_units hu, isCloser]
  | string | quotedIdentifier => simp [mode, Mode.afterMark?] at h

/-- Only at the closing quote could a quote that is the separator cut. -/
theorem cuts_mode (hs : c ≠ '\x27') (hq : c ≠ '"') (k : Construct) (d : Char) :
    k.mode.cuts [c] d = false := by
  cases k with
  | lineComment | blockComment => simp [mode, Mode.cuts, Mode.isComment]
  | string =>
    by_cases hd : d = c
    · simp [mode, Mode.cuts, Mode.after_string, hd, hs]
    · simp [Mode.cuts, hd]
  | quotedIdentifier =>
    by_cases hd : d = c
    · simp [mode, Mode.cuts, Mode.after_quotedIdentifier, hd, hq]
    · simp [Mode.cuts, hd]

end Construct

open Construct

/-- Inside a construct the scanner goes on to its end. -/
theorem scan_mode (hs : c ≠ '\x27') (hq : c ≠ '"') (k : Construct) :
    scan [c] k.mode sofar ps =
      scan [c] .code ((textOf (k.body ps)).reverse ++ sofar) (k.after ps) := by
  generalize hm : k.mode = m
  induction m, sofar, ps using scan_induct [c] with
  | done m sofar => simp [body_nil, after_nil, scan_nil]
  | dollar m sofar t ps ih =>
    have hu := k.units_dollar t ps
    rw [scan_dollar, ih hm, body_of_units hu, after_of_units hu, isCloser_dollar]
    simp [Piece.text]
  | mark m sofar a b n ps h ih =>
    subst hm
    rw [scan_mark h]
    obtain ⟨rfl, hb, ha⟩ | ⟨rfl, hb, ha⟩ := k.mark_or_closer h ps
    · rw [ih rfl, hb, ha]
      simp [Piece.text]
    · simp [hb, ha, Piece.text]
  | cut m sofar d ps h hc ih =>
    subst hm
    simp [cuts_mode hs hq] at hc
  | on m sofar d ps h hc ih =>
    subst hm
    have hu := k.units_plain h
    have ha := k.after_mode d
    rw [scan_on h hc, body_of_units hu, after_of_units hu]
    cases hcl : k.isCloser [.plain d] with
    | true => simp [ha, hcl, Piece.text]
    | false =>
      rw [hcl] at ha
      rw [ih ha.symm]
      simp [Piece.text]

theorem scan_opener (hs : c ≠ '\x27') (hq : c ≠ '"') (k : Construct) :
    scan [c] .code sofar (k.opener ++ ps) =
      scan [c] .code ((textOf (k.opener ++ k.body ps)).reverse ++ sofar) (k.after ps) := by
  have h : scan [c] .code sofar (k.opener ++ ps) =
      scan [c] k.mode ((textOf k.opener).reverse ++ sofar) ps := by
    cases k with
    | lineComment | blockComment => exact scan_mark rfl
    | string | quotedIdentifier =>
      exact scan_on (fun d qs _ => by simp [Mode.afterMark?]) (by simp [Mode.cuts, Mode.after_code])
  rw [h, scan_mode hs hq]
  simp

theorem noMark_of_not_opener (hk : ∀ k : Construct, ¬ k.opener <+: .plain d :: ps) :
    NoMark .code d ps := by
  rintro e qs rfl
  unfold Mode.afterMark?
  split
  · exact (hk .lineComment ⟨qs, rfl⟩).elim
  · simp_all
  · exact (hk .blockComment ⟨qs, rfl⟩).elim
  all_goals simp_all

theorem after_of_not_opener (hk : ∀ k : Construct, ¬ k.opener <+: .plain d :: ps) :
    Mode.after .code d = .code := by
  have hs : d ≠ '\x27' := by
    rintro rfl
    exact hk .string ⟨ps, rfl⟩
  have hq : d ≠ '"' := by
    rintro rfl
    exact hk .quotedIdentifier ⟨ps, rfl⟩
  rw [Mode.after_code, if_neg hs, if_neg hq]

theorem scan_loose (hk : ∀ k : Construct, ¬ k.opener <+: p :: ps) : scan [c] .code sofar (p :: ps) =
    if p = .plain c then (c :: sofar).reverse :: scan [c] .code [] ps
    else scan [c] .code (p.text.reverse ++ sofar) ps := by
  cases p with
  | dollar t => simp [scan_dollar, Piece.text]
  | plain d =>
    rw [scan_plain (noMark_of_not_opener hk), Mode.cuts, after_of_not_opener hk]
    by_cases hd : d = c <;> simp [hd, Mode.isComment, Piece.text]

/-- The scanner cuts behind the loose separators. -/
theorem scan_tokens (hs : c ≠ '\x27') (hq : c ≠ '"') (h : Tokens ps ts) :
    scan [c] .code sofar ps = Token.cutBehind c sofar.reverse ts := by
  induction h generalizing sofar with
  | nil => simp [scan_nil, Token.cutBehind]
  | construct _ ih => simp [scan_opener hs hq, ih, Token.cutBehind, Token.text]
  | @loose p ps ts hk _ ih =>
    rw [scan_loose hk, Token.cutBehind, ih, ih]
    by_cases hp : p = .plain c <;> simp [hp, Token.text, Piece.text]

theorem opener_append_inj {k' : Construct} (h : k.opener ++ ps = k'.opener ++ qs) :
    k = k' ∧ ps = qs := by
  cases k <;> cases k' <;> simp_all [opener]

theorem tokens_opener (h : Tokens (k.opener ++ ps) us) :
    ∃ ts, us = .construct k (k.opener ++ k.body ps) :: ts ∧ Tokens (k.after ps) ts := by
  generalize hq : k.opener ++ ps = qs at h
  cases h with
  | nil => cases k <;> cases hq
  | construct h =>
    obtain ⟨rfl, rfl⟩ := opener_append_inj hq
    exact ⟨_, rfl, h⟩
  | loose hk _ => exact (hk k ⟨ps, hq⟩).elim

theorem tokens_loose (hk : ∀ k : Construct, ¬ k.opener <+: p :: ps) (h : Tokens (p :: ps) us) :
    ∃ ts, us = .loose p :: ts ∧ Tokens ps ts := by
  generalize hq : p :: ps = qs at h
  cases h with
  | nil => cases hq
  | @construct k ps' ts h => exact (hk k ⟨ps', hq.symm⟩).elim
  | loose _ h =>
    cases hq
    exact ⟨_, rfl, h⟩

theorem tokens_nil (h : Tokens [] us) : us = [] := by
  generalize hq : [] = qs at h
  cases h with
  | nil => rfl
  | @construct k => cases k <;> cases hq
  | loose => cases hq

theorem tokens_unique (h : Tokens ps ts) (h' : Tokens ps us) : us = ts := by
  induction h generalizing us with
  | nil => exact tokens_nil h'
  | construct _ ih =>
    obtain ⟨vs, rfl, hv⟩ := tokens_opener h'
    rw [ih hv]
  | loose hk _ ih =>
    obtain ⟨vs, rfl, hv⟩ := tokens_loose hk h'
    rw [ih hv]

/-- The construct that pieces begin with, and what stands behind its opener. -/
def opened? : List Piece → Option (Construct × List Piece)
  | .plain '-' :: .plain '-' :: ps => some (.lineComment, ps)
  | .plain '/' :: .plain '*' :: ps => some (.blockComment, ps)
  | .plain '\x27' :: ps => some (.string, ps)
  | .plain '"' :: ps => some (.quotedIdentifier, ps)
  | _ => none

theorem opened?_opener (k : Construct) (ps : List Piece) :
    opened? (k.opener ++ ps) = some (k, ps) := by
  cases k <;> rfl

theorem opened?_eq_some (h : opened? ps = some (k, qs)) : ps = k.opener ++ qs := by
  unfold opened? at h
  split at h <;> cases h <;> rfl

theorem not_opener_of_opened? (h : opened? ps = none) (k : Construct) : ¬ k.opener <+: ps := by
  rintro ⟨qs, rfl⟩
  rw [opened?_opener] at h
  cases h

theorem length_after_lt (h : opened? ps = some (k, qs)) : (k.after qs).length < ps.length := by
  have := k.length_after_le qs
  rw [opened?_eq_some h]
  cases k <;> simp [opener] <;> omega

/-- Pieces read as tokens. A construct takes its opener at least. -/
def Token.ofPieces : List Piece → List Token
  | [] => []
  | p :: ps =>
    match h : opened? (p :: ps) with
    | some (k, qs) =>
      have := length_after_lt h
      .construct k (k.opener ++ k.body qs) :: ofPieces (k.after qs)
    | none => .loose p :: ofPieces ps
termination_by ps => ps.length
decreasing_by
  · exact this
  · exact Nat.lt_succ_self _

theorem tokens_ofPieces (ps : List Piece) : Tokens ps (Token.ofPieces ps) := by
  induction ps using Token.ofPieces.induct with
  | case1 =>
    rw [Token.ofPieces]
    exact .nil
  | case2 p ps k qs h hlt ih =>
    have he : Token.ofPieces (p :: ps) =
        .construct k (k.opener ++ k.body qs) :: Token.ofPieces (k.after qs) := by
      rw [Token.ofPieces]
      split <;> simp_all
    rw [he, opened?_eq_some h]
    exact .construct ih
  | case3 p ps h ih =>
    have he : Token.ofPieces (p :: ps) = .loose p :: Token.ofPieces ps := by
      rw [Token.ofPieces]
      split <;> simp_all
    rw [he]
    exact .loose (not_opener_of_opened? h) ih

theorem exists_tokens (ps : List Piece) : ∃ ts, Tokens ps ts := ⟨_, tokens_ofPieces ps⟩

def Token.ofText (s : Text) : List Token := ofPieces (Piece.ofText s)

theorem grammar_ofText (s : Text) : Grammar s (Token.ofText s) :=
  ⟨Piece.ofText s, reads_iff.mpr rfl, tokens_ofPieces _⟩

/-- Each text is told by tokens in exactly one way. -/
theorem grammar_iff (h : Grammar s ts) : Grammar s us ↔ us = ts := by
  obtain ⟨ps, hr, ht⟩ := h
  constructor
  · rintro ⟨qs, hr', ht'⟩
    obtain rfl : ps = qs := (reads_iff.mp hr).symm.trans (reads_iff.mp hr')
    exact tokens_unique ht ht'
  · rintro rfl
    exact ⟨ps, hr, ht⟩

end SchemaDump.Statement
