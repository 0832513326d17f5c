import SchemaDump.Proofs.Statement.Scan
import Mathlib.Logic.Function.Iterate

/-! The scanner as a loop over the characters, with four flags for the mode and a look at the
character ahead. The flags are never up together, and the loop finds the same statements. -/
namespace SchemaDump.Statement

/-- A flag for each mode but code. -/
structure Flags where
  lineComment : Bool := false
  blockComment : Bool := false
  string : Bool := false
  quotedIdentifier : Bool := false
deriving DecidableEq, Repr

namespace Flags

def quoted (f : Flags) : Bool := f.string || f.quotedIdentifier

/-- A quote turns the flag of its own sort, save amid quotes of the other. -/
def turn (f : Flags) (c : Char) : Flags :=
  if c = '\x27' && !f.quotedIdentifier then { f with string := !f.string }
  else if c = '"' && !f.string then { f with quotedIdentifier := !f.quotedIdentifier }
  else f

/-- At most one flag is up. -/
def Exclusive (f : Flags) : Prop :=
  [f.lineComment, f.blockComment, f.string, f.quotedIdentifier].count true ≤ 1

def ofMode (m : Mode) : Flags where
  lineComment := m = .lineComment
  blockComment := m = .blockComment
  string := m = .string
  quotedIdentifier := m = .quotedIdentifier

variable {m : Mode}

theorem exclusive_ofMode (m : Mode) : (ofMode m).Exclusive := by
  cases m <;> simp [Exclusive, ofMode]

theorem turn_ofMode (hm : m.isComment = false) (c : Char) :
    (ofMode m).turn c = ofMode (m.after c) := by
  cases m with
  | code =>
    rw [Mode.after_code]
    by_cases hs : c = '\x27'
    · simp [turn, ofMode, hs]
    · by_cases hq : c = '"' <;> simp [turn, ofMode, hs, hq]
  | string =>
    rw [Mode.after_string]
    by_cases hs : c = '\x27' <;> simp [turn, ofMode, hs]
  | quotedIdentifier =>
    rw [Mode.after_quotedIdentifier]
    by_cases hq : c = '"' <;> simp [turn, ofMode, hq]
  | lineComment | blockComment => simp [Mode.isComment] at hm

/-- Outside comments, no quotes are open in code alone. -/
theorem not_quoted_ofMode (hm : m.isComment = false) :
    (!(ofMode m).quoted) = decide (m = .code) := by
  cases m with
  | code | string | quotedIdentifier => rfl
  | lineComment | blockComment => simp [Mode.isComment] at hm

theorem ofMode_lineComment_after (c : Char) :
    { ofMode .lineComment with lineComment := c ≠ '\r' && c ≠ '\n' } =
      ofMode (Mode.after .lineComment c) := by
  rw [Mode.after_lineComment]
  by_cases hr : c = '\r'
  · simp [ofMode, hr]
  · by_cases hn : c = '\n' <;> simp [ofMode, hr, hn]

end Flags

/-- The loop between two rounds: the statements found, the statement so far, and the characters to
come. -/
structure Loop where
  flags : Flags := {}
  found : List Text := []
  sofar : Text := []
  rest : Text
deriving DecidableEq, Repr

namespace Loop

def start (s : Text) : Loop := { rest := s }

/-- Takes `n` characters into the statement so far. -/
def take (l : Loop) (n : Nat) (f : Flags) : Loop :=
  { l with flags := f, sofar := l.sofar ++ l.rest.take n, rest := l.rest.drop n }

/-- Takes a character that ends the statement. -/
def cut (l : Loop) (f : Flags) : Loop :=
  { flags := f, found := l.found ++ [l.sofar ++ l.rest.take 1], rest := l.rest.drop 1 }

def step (separator : Text) (l : Loop) : Loop :=
  match l.rest with
  | [] => l
  | c :: s =>
    let f := l.flags
    if c = '$' then l.take (Piece.dollarLength s) f
    else if !f.quoted && !f.blockComment && c = '-' && s.head? = some '-' then
      l.take 2 { f with lineComment := true }
    else if !f.quoted && !f.lineComment && c = '/' && s.head? = some '*' then
      l.take 2 { f with blockComment := true }
    else if f.lineComment then
      l.take 1 { f with lineComment := c ≠ '\r' && c ≠ '\n' }
    else if f.blockComment then
      if c = '*' && s.head? = some '/' then l.take 2 { f with blockComment := false }
      else l.take 1 f
    else if [c] = separator && !(f.turn c).quoted then l.cut (f.turn c)
    else l.take 1 (f.turn c)

/-- The statements found, and last what is left over. -/
def statements (l : Loop) : List Text :=
  if l.sofar = [] then l.found else l.found ++ [l.sofar]

variable {separator s t : Text} {l : Loop} {m n : Mode} {c d : Char}

theorem step_dollar (hr : l.rest = '$' :: s) :
    l.step separator = l.take (Piece.dollarLength s) l.flags := by
  simp [step, hr]

theorem step_mark (hf : l.flags = .ofMode m) (hr : l.rest = c :: d :: s)
    (h : m.afterMark? c d = some n) : l.step separator = l.take 2 (.ofMode n) := by
  unfold Mode.afterMark? at h
  split at h <;> cases h <;> simp [step, hr, hf, Flags.ofMode, Flags.quoted]

theorem not_mark (h : NoMark m c (Piece.ofText s)) {a b : Char} (hm : m.afterMark? a b = some n) :
    ¬ (c = a ∧ s.head? = some b) := by
  rintro ⟨rfl, hb⟩
  cases s with
  | nil => simp at hb
  | cons d s =>
    obtain rfl : d = b := by simpa using hb
    simp [h.afterMark?_eq_none] at hm

theorem step_comment (hf : l.flags = .ofMode m) (hr : l.rest = c :: s) (hc : c ≠ '$')
    (h : NoMark m c (Piece.ofText s)) (hm : m.isComment = true) :
    l.step separator = l.take 1 (.ofMode (m.after c)) := by
  cases m with
  | lineComment =>
    have hl := not_mark h (a := '-') (b := '-') rfl
    rw [← Flags.ofMode_lineComment_after]
    simp [step, hr, hf, hc, hl, Flags.ofMode, Flags.quoted]
  | blockComment =>
    have ho := not_mark h (a := '/') (b := '*') rfl
    have he := not_mark h (a := '*') (b := '/') rfl
    simp [step, hr, hf, hc, ho, he, Flags.ofMode, Flags.quoted, Mode.after]
  | code | string | quotedIdentifier => simp [Mode.isComment] at hm

theorem step_code_or_quoted (hf : l.flags = .ofMode m) (hr : l.rest = c :: s) (hc : c ≠ '$')
    (h : NoMark m c (Piece.ofText s)) (hm : m.isComment = false) : l.step separator =
      if m.cuts separator c then l.cut (.ofMode .code) else l.take 1 (.ofMode (m.after c)) := by
  have hstep : l.step separator =
      if [c] = separator && !((Flags.ofMode m).turn c).quoted then l.cut ((Flags.ofMode m).turn c)
      else l.take 1 ((Flags.ofMode m).turn c) := by
    cases m with
    | code =>
      have hl := not_mark h (a := '-') (b := '-') rfl
      have hb := not_mark h (a := '/') (b := '*') rfl
      simp [step, hr, hf, hc, hl, hb, Flags.ofMode, Flags.quoted]
    | string | quotedIdentifier => simp [step, hr, hf, hc, Flags.ofMode, Flags.quoted]
    | lineComment | blockComment => simp [Mode.isComment] at hm
  rw [hstep, Flags.turn_ofMode hm, Flags.not_quoted_ofMode (Mode.isComment_after hm c)]
  by_cases hs : [c] = separator <;> by_cases ha : m.after c = .code <;> simp [Mode.cuts, hm, hs, ha]

theorem step_plain (hf : l.flags = .ofMode m) (hr : l.rest = c :: s) (hc : c ≠ '$')
    (h : NoMark m c (Piece.ofText s)) : l.step separator =
      if m.cuts separator c then l.cut (.ofMode .code) else l.take 1 (.ofMode (m.after c)) := by
  cases hm : m.isComment with
  | false => exact step_code_or_quoted hf hr hc h hm
  | true => simp [step_comment hf hr hc h hm, Mode.cuts, hm]

/-- All a round can do: take a piece that begins with a dollar sign, take a mark, or take a character
and perhaps cut behind it. -/
theorem step_cases (separator : Text) (hf : l.flags = .ofMode m) (hr : l.rest ≠ []) :
    (∃ t u, Piece.ofText l.rest = .dollar t :: Piece.ofText u ∧
      l.step separator = { l with sofar := l.sofar ++ t, rest := u }) ∨
    (∃ c d n u, Piece.ofText l.rest = .plain c :: .plain d :: Piece.ofText u ∧
      m.afterMark? c d = some n ∧
      l.step separator =
        { l with flags := .ofMode n, sofar := l.sofar ++ [c, d], rest := u }) ∨
    (∃ c u, Piece.ofText l.rest = .plain c :: Piece.ofText u ∧ NoMark m c (Piece.ofText u) ∧
      l.step separator =
        if m.cuts separator c then
          { flags := .ofMode .code, found := l.found ++ [l.sofar ++ [c]], rest := u }
        else { l with flags := .ofMode (m.after c), sofar := l.sofar ++ [c], rest := u }) := by
  obtain ⟨c, t, hct⟩ := List.exists_cons_of_ne_nil hr
  by_cases hc : c = '$'
  · subst hc
    refine Or.inl ⟨('$' :: t).take (Piece.dollarLength t), Piece.afterOne '$' t, ?_, ?_⟩
    · rw [hct, Piece.ofText_cons, Piece.first_dollar]
    · simp [step_dollar hct, take, hct, Piece.afterOne_dollar]
  · right
    rcases mark_or_noMark m c t with ⟨d, u, n, rfl, hm⟩ | hm
    · refine Or.inl ⟨c, d, n, u, hct ▸ ofText_mark hm, hm, ?_⟩
      simp [step_mark hf hct hm, take, hct]
    · refine Or.inr ⟨c, t, hct ▸ (Piece.Starts.plain hc).ofText_eq, hm, ?_⟩
      simp [step_plain hf hct hc hm, take, cut, hct]

/-- What a round does to the flags and the statements is what the scanner does in the mode. -/
def Tracks (separator s : Text) (l : Loop) : Prop :=
  ∃ m, l.flags = .ofMode m ∧
    l.found ++ scan separator m l.sofar.reverse (Piece.ofText l.rest) = split separator s

theorem tracks_start : Tracks separator s (start s) :=
  ⟨.code, rfl, rfl⟩

theorem tracks_step (h : Tracks separator s l) : Tracks separator s (l.step separator) := by
  obtain ⟨m, hf, hs⟩ := h
  by_cases hr : l.rest = []
  · exact ⟨m, by simp [step, hr, hf], by simpa [step, hr] using hs⟩
  obtain ⟨t, u, hp, he⟩ | ⟨c, d, n, u, hp, hm, he⟩ | ⟨c, u, hp, hm, he⟩ :=
    step_cases separator hf hr
  · refine ⟨m, by rw [he, hf], ?_⟩
    rw [he, ← hs, hp, scan_dollar, List.reverse_append]
  · refine ⟨n, by rw [he], ?_⟩
    rw [he, ← hs, hp, scan_mark hm]
    simp
  · rw [hp, scan_plain hm] at hs
    by_cases hcut : m.cuts separator c
    · rw [if_pos hcut] at hs he
      refine ⟨.code, by rw [he], ?_⟩
      simp [he, ← hs]
    · rw [if_neg hcut] at hs he
      refine ⟨m.after c, by rw [he], ?_⟩
      simp [he, ← hs]

theorem tracks_iterate (n : Nat) : Tracks separator s ((step separator)^[n] (start s)) := by
  induction n with
  | zero => exact tracks_start
  | succ n ih =>
    rw [Function.iterate_succ_apply']
    exact tracks_step ih

theorem length_rest_step (separator : Text) (l : Loop) :
    (l.step separator).rest.length ≤ l.rest.length - 1 := by
  unfold step
  split
  · next hr => simp [hr]
  · next c s hr =>
    have hp := Piece.dollarLength_pos s
    dsimp only
    split_ifs <;> simp only [take, cut, List.length_drop] <;> omega

theorem length_rest_iterate (separator : Text) (l : Loop) (n : Nat) :
    ((step separator)^[n] l).rest.length ≤ l.rest.length - n := by
  induction n with
  | zero => exact Nat.le_refl _
  | succ n ih =>
    rw [Function.iterate_succ_apply']
    have := length_rest_step separator ((step separator)^[n] l)
    omega

/-- Each round takes a character, so the loop is at its end after as many. -/
theorem rest_iterate_length (separator s : Text) :
    ((step separator)^[s.length] (start s)).rest = [] := by
  have := length_rest_iterate separator (start s) s.length
  exact List.eq_nil_of_length_eq_zero (by simp only [start] at this ⊢; omega)

theorem Tracks.statements_eq (h : Tracks separator s l) (hr : l.rest = []) :
    l.statements = split separator s := by
  obtain ⟨m, -, hs⟩ := h
  rw [← hs, hr, Piece.ofText_nil, scan_nil]
  by_cases hl : l.sofar = [] <;> simp [statements, hl]

theorem Tracks.exclusive (h : Tracks separator s l) : l.flags.Exclusive := by
  obtain ⟨m, hf, -⟩ := h
  rw [hf]
  exact Flags.exclusive_ofMode m

end Loop
end SchemaDump.Statement
