import SchemaDump.Proofs.Statement.Tokens
import Mathlib.Data.List.Basic

/-! Parentheses that match each other. Only those in code count: what stands in comments, strings,
quoted identifiers and dollar quotations has none. -/
namespace SchemaDump.Statement

namespace Token

def opening : Token := .loose (.plain '(')

def closing : Token := .loose (.plain ')')

end Token

open Token

variable {s : Text} {t : Token} {ts us vs ws : List Token} {n m : Nat}

/-- The tokens close `n` parentheses that are open before them, and all that they open. -/
def closes : Nat → List Token → Bool
  | n, [] => n = 0
  | n, t :: ts =>
    if t = opening then closes (n + 1) ts
    else if t = closing then
      match n with
      | 0 => false
      | n + 1 => closes n ts
    else closes n ts

@[simp] theorem closes_nil (n : Nat) : closes n [] = decide (n = 0) := rfl

@[simp] theorem closes_opening (n : Nat) (ts : List Token) :
    closes n (opening :: ts) = closes (n + 1) ts := rfl

@[simp] theorem closes_zero_closing (ts : List Token) : closes 0 (closing :: ts) = false := rfl

@[simp] theorem closes_succ_closing (n : Nat) (ts : List Token) :
    closes (n + 1) (closing :: ts) = closes n ts := rfl

theorem closes_other (ho : t ≠ opening) (hc : t ≠ closing) (n : Nat) (ts : List Token) :
    closes n (t :: ts) = closes n ts := by
  simp only [closes, if_neg ho, if_neg hc]

/-- Every parenthesis is matched. -/
def Balanced (ts : List Token) : Prop := closes 0 ts = true

instance (ts : List Token) : Decidable (Balanced ts) := inferInstanceAs (Decidable (_ = true))

theorem closes_append (h : closes m us = true) (n : Nat) (vs : List Token) :
    closes (m + n) (us ++ vs) = closes n vs := by
  induction us generalizing m with
  | nil =>
    obtain rfl : m = 0 := by simpa using h
    rw [Nat.zero_add, List.nil_append]
  | cons t us ih =>
    rw [List.cons_append]
    by_cases ho : t = opening
    · subst ho
      rw [closes_opening] at h ⊢
      rw [← ih h, Nat.add_right_comm]
    · by_cases hc : t = closing
      · subst hc
        cases m with
        | zero => simp at h
        | succ m =>
          rw [closes_succ_closing] at h
          rw [Nat.add_right_comm, closes_succ_closing, ih h]
      · rw [closes_other ho hc] at h ⊢
        exact ih h

/-- Before `n` open parentheses are closed, those opened after them are. -/
theorem exists_closing (h : closes (m + n + 1) ts = true) :
    ∃ us vs, ts = us ++ closing :: vs ∧ closes m us = true ∧ closes n vs = true := by
  induction ts generalizing m with
  | nil => simp at h
  | cons t ts ih =>
    by_cases ho : t = opening
    · subst ho
      rw [closes_opening, Nat.add_right_comm m n 1] at h
      obtain ⟨us, vs, rfl, hu, hv⟩ := ih h
      exact ⟨opening :: us, vs, rfl, hu, hv⟩
    · by_cases hc : t = closing
      · subst hc
        rw [closes_succ_closing] at h
        cases m with
        | zero => exact ⟨[], ts, rfl, rfl, by simpa using h⟩
        | succ m =>
          rw [Nat.add_right_comm m 1 n] at h
          obtain ⟨us, vs, rfl, hu, hv⟩ := ih h
          exact ⟨closing :: us, vs, rfl, hu, hv⟩
      · rw [closes_other ho hc] at h
        obtain ⟨us, vs, rfl, hu, hv⟩ := ih h
        exact ⟨t :: us, vs, rfl, (closes_other ho hc m us).trans hu, hv⟩

/-- Tokens without an opening parenthesis are balanced if others are balanced behind them. -/
theorem balanced_of_not_mem (h : Balanced (us ++ vs)) (hu : opening ∉ us) : Balanced us := by
  induction us with
  | nil => rfl
  | cons t us ih =>
    obtain ⟨ht, hu⟩ : opening ≠ t ∧ opening ∉ us := by simpa using hu
    rw [Balanced, List.cons_append] at h
    by_cases hc : t = closing
    · subst hc
      simp at h
    · rw [closes_other ht.symm hc] at h
      rw [Balanced, closes_other ht.symm hc]
      exact ih h hu

theorem not_balanced_append (h : Balanced us) (vs : List Token) :
    ¬ Balanced (us ++ closing :: vs) := by
  intro hv
  have hc := closes_append h 0 (closing :: vs)
  rw [closes_zero_closing, hv] at hc
  cases hc

/-- Tokens are cut at `t` in one way only if what stands before the cut does not go beyond a `t`. -/
theorem eq_of_append_cons {P : List Token → Prop} (hP : ∀ us vs, P us → ¬ P (us ++ t :: vs))
    (hu : P us) (hv : P vs) (h : us ++ t :: ts = vs ++ t :: ws) : us = vs ∧ ts = ws := by
  have heq : us = vs := by
    obtain ⟨z, rfl, hz⟩ | ⟨z, rfl, hz⟩ := List.append_eq_append_iff.mp h
    · cases z with
      | nil => simp
      | cons x z =>
        cases hz
        exact (hP us z hu hv).elim
    · cases z with
      | nil => simp
      | cons x z =>
        cases hz
        exact (hP vs z hv hu).elim
  subst heq
  exact ⟨rfl, (List.cons.inj (List.append_cancel_left h)).2⟩

/-- A text in which parentheses match, cut at its first one and at the one that matches it. -/
structure Parenthesised (s : Text) where
  front : List Token
  inside : List Token
  back : List Token
  grammar : Grammar s (front ++ opening :: (inside ++ closing :: back))
  isFirst : opening ∉ front
  balanced_front : Balanced front
  balanced_inside : Balanced inside
  balanced_back : Balanced back

namespace Parenthesised

/-- The text before the first parenthesis. -/
def before (p : Parenthesised s) : Text := textOf p.front

/-- The text between the two parentheses. -/
def list (p : Parenthesised s) : Text := textOf p.inside

/-- The text after the matching parenthesis. -/
def after (p : Parenthesised s) : Text := textOf p.back

theorem text_eq (p : Parenthesised s) : s = p.before ++ '(' :: (p.list ++ ')' :: p.after) := by
  conv => lhs; rw [← p.grammar.textOf_eq]
  simp [before, list, after, opening, closing, text, Piece.text]

/-- A text is cut so in one way only. -/
theorem tokens_eq (p q : Parenthesised s) :
    p.front = q.front ∧ p.inside = q.inside ∧ p.back = q.back := by
  have htokens := (grammar_iff q.grammar).mp p.grammar
  obtain ⟨hfront, hrest⟩ :=
    eq_of_append_cons (P := fun us => opening ∉ us) (by simp) p.isFirst q.isFirst htokens
  obtain ⟨hinside, hback⟩ := eq_of_append_cons (P := Balanced)
    (fun _ vs h => not_balanced_append h vs) p.balanced_inside q.balanced_inside hrest
  exact ⟨hfront, hinside, hback⟩

/-- Every text in which all parentheses match, and that has some, is cut so. -/
theorem nonempty_iff : Nonempty (Parenthesised s) ↔
    ∃ ts, Grammar s ts ∧ Balanced ts ∧ opening ∈ ts := by
  constructor
  · rintro ⟨p⟩
    refine ⟨_, p.grammar, ?_, by simp⟩
    have hback := closes_append p.balanced_inside 1 (closing :: p.back)
    rw [Nat.zero_add, closes_succ_closing, p.balanced_back] at hback
    have hfront := closes_append p.balanced_front 0 (opening :: (p.inside ++ closing :: p.back))
    rw [closes_opening, hback] at hfront
    exact hfront
  · rintro ⟨ts, hts, hb, ho⟩
    obtain ⟨us, vs, rfl, hus⟩ := List.eq_append_cons_of_mem ho
    have hu := balanced_of_not_mem hb hus
    have hv := closes_append hu 0 (opening :: vs)
    rw [Nat.zero_add, closes_opening, hb] at hv
    obtain ⟨inside, back, rfl, hinside, hback⟩ := exists_closing (m := 0) (n := 0) hv.symm
    exact ⟨⟨us, inside, back, hts, hus, hu, hinside, hback⟩⟩

/-- A text put together from three, if they are read alone as they are read together. -/
theorem exists_of_texts (front inside back : Text)
    (h : ofText (front ++ '(' :: (inside ++ ')' :: back)) =
      ofText front ++ opening :: (ofText inside ++ closing :: ofText back))
    (hf : opening ∉ ofText front ∧ Balanced (ofText front) ∧ Balanced (ofText inside) ∧
      Balanced (ofText back)) :
    ∃ p : Parenthesised (front ++ '(' :: (inside ++ ')' :: back)),
      p.before = front ∧ p.list = inside ∧ p.after = back := by
  obtain ⟨hfirst, hfront, hinside, hback⟩ := hf
  exact ⟨⟨_, _, _, h ▸ grammar_ofText _, hfirst, hfront, hinside, hback⟩,
    (grammar_ofText front).textOf_eq, (grammar_ofText inside).textOf_eq,
    (grammar_ofText back).textOf_eq⟩

end Parenthesised
end SchemaDump.Statement
