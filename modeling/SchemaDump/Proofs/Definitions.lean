import SchemaDump.Proofs.Headings
import SchemaDump.Proofs.Statement.Core

/-! Definitions cut out of their statements. Where the heading begins in code, the definition is a
statement as well, and is recognised as what it was recognised as before. -/
namespace SchemaDump

open Text Statement

namespace Text

variable {c : Char}

theorem capital_of_isBlank (h : isBlank c = true) : capital c = c := by
  have hletter : ¬ ('a' ≤ c ∧ c ≤ 'z') := by
    rintro ⟨ha, hz⟩
    have ha' : 97 ≤ c.toNat := ha
    have hz' : c.toNat ≤ 122 := hz
    simp only [isBlank, Bool.or_eq_true, Bool.and_eq_true, decide_eq_true_eq] at h
    omega
  have hnone : ['\u017F', '\u0130', '\u0131', '\u212A'].any isBlank = false := by decide
  have hother : ∀ d ∈ ['\u017F', '\u0130', '\u0131', '\u212A'], c ≠ d := by
    rintro d hd rfl
    exact List.any_eq_false.mp hnone c hd h
  simp only [List.forall_mem_cons] at hother
  simp [capital, hletter, hother]

/-- Blanks are letters of no keyword. -/
theorem isBlank_eq_false_of_map_capital {w : String} {front : Text}
    (hw : w.toList.any isBlank = false) (h : front.map capital = w.toList) :
    ∀ c ∈ front, isBlank c = false := by
  intro c hc
  by_contra hb
  have hb : isBlank c = true := by simpa using hb
  have hmem : capital c ∈ w.toList := h ▸ List.mem_map_of_mem hc
  rw [capital_of_isBlank hb] at hmem
  exact List.any_eq_false.mp hw c hmem hb

end Text

variable {s st : Text} {c : Classified}

namespace Classified

/-- The heading by which the statement was recognised begins in code. -/
def BeginsInCode (s : Text) (c : Classified) : Prop :=
  ∃ us d vs, Grammar s (us ++ .loose (.plain d) :: vs) ∧ Token.textOf us = c.residual

theorem beginsInCode_of_occurs (h : ofStatement? s = some c)
    (hn : ∀ t ∈ Token.ofText s, t.isCode = false → Heading.occurs t.text = false) :
    c.BeginsInCode s := by
  obtain ⟨us, d, vs, hts, hus⟩ := (decides_of_ofStatement? h).exists_code (grammar_ofText s) hn
  exact ⟨us, d, vs, hts ▸ grammar_ofText s, hus⟩

/-- Without the text before its heading a statement is recognised as the same. -/
theorem ofStatement?_definition (h : ofStatement? s = some c) :
    ofStatement? c.definition = some { c with residual := [] } := by
  have hd := decides_of_ofStatement? h
  obtain ⟨earlier, later, hkinds, hearlier⟩ := hd.firstKind
  refine ofStatement?_of_decides ⟨rfl, hd.reads, ?_, earlier, later, hkinds, ?_⟩
  · intro x y _ hlt
    simp at hlt
  · intro k hk u hu
    exact hearlier k hk u (hu.trans ⟨c.residual, hd.cut⟩)

theorem trimStart_definition (h : ofStatement? s = some c) :
    trimStart c.definition = c.definition := by
  have ho := opens_of_decides (decides_of_ofStatement? h)
  obtain ⟨w, hw, word, d, rest, hdef, hword, -⟩ := Heading.opens_iff.mp ho
  have hletters : ∀ w ∈ ["CREATE", "ALTER"], w.toList ≠ [] ∧ w.toList.any isBlank = false := by
    decide
  obtain ⟨hne, hletter⟩ := hletters w hw
  cases word with
  | nil => exact (hne hword.symm).elim
  | cons e word =>
    have he := isBlank_eq_false_of_map_capital hletter hword e List.mem_cons_self
    rw [hdef, trimStart, List.cons_append, List.dropWhile_cons_of_neg (by simp [he])]

/-- The definition is a statement like the one that it is cut out of, and comes to the same. -/
structure IsFixed (st : Text) (c : Classified) : Prop where
  core : Core ';' st c.definition
  trimStart_eq : trimStart c.definition = c.definition
  trim_eq : trim c.definition = c.definition
  recognised : ofStatement? c.definition = some { c with residual := [] }

theorem isFixed (hst : split [';'] st = [st]) (h : ofStatement? (trim st) = some c)
    (hcode : c.BeginsInCode (trim st)) : c.IsFixed st := by
  have hcut : c.residual ++ c.definition = trim st := residual_append_definition h
  have hne := (decides_of_ofStatement? h).definition_ne_nil
  have hstart := trimStart_definition h
  have hend : trimEnd c.definition = c.definition := trimEnd_eq_self_of_isSuffix ⟨_, hcut⟩
  have htrim : trim st ≠ [] := by
    rw [← hcut]
    simp [hne]
  have hcore : Core ';' st (trim st) := by
    have hstart : trimStart st ≠ [] := by
      intro hnil
      exact htrim (by rw [trim, hnil]; rfl)
    have hcoreStart := core_trimStart (Or.inl rfl) hst hstart
    exact hcoreStart.trans (core_trimEnd (Or.inl rfl) hcoreStart.alone htrim)
  obtain ⟨us, d, vs, hts, hus⟩ := hcode
  have hdefinition : Token.textOf (.loose (.plain d) :: vs) = c.definition := by
    have htext := hts.textOf_eq
    rw [Token.textOf_append, hus, ← hcut] at htext
    exact List.append_cancel_left htext
  have hcoreTokens := core_of_tokens (Or.inl rfl) hcore.alone hts (List.cons_ne_nil _ vs)
  refine ⟨hcore.trans (hdefinition ▸ hcoreTokens), hstart, ?_, ofStatement?_definition h⟩
  rw [trim, hstart, hend]

end Classified

end SchemaDump
