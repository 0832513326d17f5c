import SchemaDump.Proofs.Statement.Flags
import SchemaDump.Proofs.Statement.Grammar

/-! A text cut into statements: where it is cut, that nothing is lost, and that the statements of a
dump are cut in the same way apart from it. -/
namespace SchemaDump.Statement

open Piece

variable {separator s : Text} {ps : List Piece} {xs ys run : List Text}

theorem statements_iterate_length (separator s : Text) :
    ((Loop.step separator)^[s.length] (Loop.start s)).statements = split separator s :=
  (Loop.tracks_iterate s.length).statements_eq (Loop.rest_iterate_length separator s)

/-- The statements end behind the separators outside all constructs of the grammar. It has one
reading of each text, and a loop with flags for the constructs never has two of them up. -/
theorem split_eq_cutBehind (c : Char) (hc : c = ';' ∨ c = ',') (s : Text) :
    (∃ ts, (∀ us, Grammar s us ↔ us = ts) ∧ split [c] s = Token.cutBehind c [] ts) ∧
      (∀ n, ((Loop.step [c])^[n] (Loop.start s)).flags.Exclusive) ∧
      ((Loop.step [c])^[s.length] (Loop.start s)).statements = split [c] s := by
  have hs : c ≠ '\x27' := by
    rintro rfl
    simp at hc
  have hq : c ≠ '"' := by
    rintro rfl
    simp at hc
  obtain ⟨ts, ht⟩ := exists_tokens (ofText s)
  refine ⟨⟨ts, fun us => grammar_iff ⟨ofText s, reads_iff.mpr rfl, ht⟩, scan_tokens hs hq ht⟩, ?_, ?_⟩
  · intro n
    exact (Loop.tracks_iterate n).exclusive
  · exact statements_iterate_length [c] s

theorem split_eq_cutBehind_hidden_closer :
    (';' = ';' ∨ ';' = ',') ∧ ∃ ts, (∀ us, Grammar "a/*;/*/;*/;$x$;$y$$x$;--;".toList us ↔ us = ts) ∧
      Token.cutBehind ';' [] ts =
        ["a/*;/*/;*/;".toList, "$x$;$y$$x$;".toList, "--;".toList] := by
  obtain ⟨⟨ts, ht, hc⟩, -⟩ :=
    split_eq_cutBehind ';' (Or.inl rfl) "a/*;/*/;*/;$x$;$y$$x$;--;".toList
  exact ⟨Or.inl rfl, ts, ht, hc.symm.trans (by decide +kernel)⟩

/-- Without a separator of one character nothing is cut. -/
theorem split_of_length_ne_one (hl : separator.length ≠ 1) (s : Text) :
    split separator s = if s = [] then [] else [s] := by
  have hf := flatten_split separator s
  have hd : (split separator s).dropLast = [] := by
    refine List.eq_nil_iff_forall_not_mem.mpr fun st hst => ?_
    obtain ⟨t, c, rfl, -⟩ := ends_of_mem_dropLast_scan hst
    exact hl rfl
  cases hx : split separator s with
  | nil =>
    rw [hx] at hf
    rw [← hf]
    rfl
  | cons st sts =>
    have hst : st ≠ [] := ne_nil_of_mem_scan (hx ▸ List.mem_cons_self)
    rw [hx] at hd hf
    obtain rfl : sts = [] := by
      cases sts <;> simp_all
    obtain rfl : st = s := by simpa using hf
    rw [if_neg hst]

/-- The loop comes to its end, and the statements hold the text and nothing else. -/
theorem split_reassembles (separator s : Text) :
    ((Loop.step separator)^[s.length] (Loop.start s)).rest = [] ∧
      ((Loop.step separator)^[s.length] (Loop.start s)).statements = split separator s ∧
      (split separator s).flatten = s ∧
      (∀ st ∈ split separator s, st ≠ []) ∧
      (∀ st ∈ (split separator s).dropLast, ∃ t c, separator = [c] ∧ st = t ++ [c]) ∧
      (separator.length ≠ 1 → split separator s = if s = [] then [] else [s]) := by
  refine ⟨Loop.rest_iterate_length separator s, statements_iterate_length separator s,
    flatten_split separator s, ?_, ?_, fun hl => split_of_length_ne_one hl s⟩
  · intro st hst
    exact ne_nil_of_mem_scan hst
  · intro st hst
    exact ends_of_mem_dropLast_scan hst

theorem exists_append_of_split (h : scan separator .code [] ps = xs ++ ys) :
    ∃ ps₁ ps₂, ps = ps₁ ++ ps₂ ∧
      scan separator .code [] ps₁ = xs ∧ scan separator .code [] ps₂ = ys := by
  by_cases hx : xs = []
  · exact ⟨[], ps, rfl, by simp [hx, scan_nil], by simpa [hx] using h⟩
  · exact exists_append_of_scan h hx

theorem split_flatten_of_isInfix (h : run <:+: split separator s) :
    split separator run.flatten = run := by
  obtain ⟨pre, post, h⟩ := h
  rw [List.append_assoc] at h
  have hs : scan separator .code [] (ofText s) = pre ++ (run ++ post) := h.symm
  obtain ⟨ps₁, ps₂, hp, -, h₂⟩ := exists_append_of_split hs
  obtain ⟨qs₁, qs₂, rfl, h₁, -⟩ := exists_append_of_split h₂
  have hr : textOf qs₁ = run.flatten := by
    rw [← h₁, flatten_scan]
    rfl
  have ht := (ofText_textOf_of_append hp).2
  rw [← hr, split, (ofText_textOf_of_append ht).1, h₁]

/-- Statements that follow each other in a text are cut in the same way where they stand alone. -/
theorem split_flatten_run (separator s : Text) :
    (∀ run, run <:+: split separator s → split separator run.flatten = run) ∧
      ∀ st ∈ split separator s, split separator st = [st] := by
  refine ⟨fun run => split_flatten_of_isInfix, fun st hst => ?_⟩
  obtain ⟨pre, post, h⟩ := List.append_of_mem hst
  have hi : [st] <:+: split separator s := ⟨pre, post, by simp [h]⟩
  simpa using split_flatten_of_isInfix hi

end SchemaDump.Statement
