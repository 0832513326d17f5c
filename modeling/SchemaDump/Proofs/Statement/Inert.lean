import SchemaDump.Proofs.Lists
import SchemaDump.Proofs.Statement.Core
import SchemaDump.Proofs.Statement.Passage

/-! Text that means nothing to the scanner. Wherever it is put into a statement, behind the last of
its dollar signs, the statement is still one, and may stand where it stood among others. -/
namespace SchemaDump.Statement

open Piece Text

variable {separator sofar s t l r u v x y : Text} {c d e : Char} {m n : Mode} {ps qs : List Piece}
  {xs ys : List Text}

/-- The text has no quote, separator or line end, and no mark of a comment. -/
structure IsInert (u : Text) : Prop where
  plain : ∀ c ∈ [',', ';', '\x27', '"', '$', '\r', '\n'], c ∉ u
  noMark : ∀ mark ∈ ["--", "/*", "*/"], ¬ mark.toList <:+: u

theorem isInfix_of_afterMark? (h : m.afterMark? c d = some n) (s : Text) :
    ∃ mark ∈ ["--", "/*", "*/"], mark.toList <:+: c :: d :: s := by
  unfold Mode.afterMark? at h
  split at h
  · exact ⟨"--", by simp, (List.prefix_append ['-', '-'] s).isInfix⟩
  · exact ⟨"--", by simp, (List.prefix_append ['-', '-'] s).isInfix⟩
  · exact ⟨"/*", by simp, (List.prefix_append ['/', '*'] s).isInfix⟩
  · exact ⟨"/*", by simp, (List.prefix_append ['/', '*'] s).isInfix⟩
  · exact ⟨"*/", by simp, (List.prefix_append ['*', '/'] s).isInfix⟩
  · cases h

namespace IsInert

theorem tail (h : IsInert (c :: u)) : IsInert u where
  plain d hd hm := h.plain d hd (List.mem_cons_of_mem c hm)
  noMark mark hmark hi := h.noMark mark hmark (hi.trans (List.suffix_cons c u).isInfix)

theorem after_eq (h : IsInert (c :: u)) (m : Mode) : m.after c = m := by
  have hne (d : Char) (hd : d ∈ [',', ';', '\x27', '"', '$', '\r', '\n']) : c ≠ d := by
    rintro rfl
    exact h.plain c hd List.mem_cons_self
  have hstring := hne '\x27' (by simp)
  have hquote := hne '"' (by simp)
  have hreturn := hne '\r' (by simp)
  have hnewline := hne '\n' (by simp)
  cases m with
  | code => simp [Mode.after_code, hstring, hquote]
  | lineComment => simp [Mode.after_lineComment, hreturn, hnewline]
  | blockComment => rfl
  | string => simp [Mode.after_string, hstring]
  | quotedIdentifier => simp [Mode.after_quotedIdentifier, hquote]

theorem noMark_cons (h : IsInert (c :: u)) (m : Mode) : NoMark m c (u.map .plain) := by
  intro d qs hqs
  obtain ⟨u, rfl⟩ : ∃ u', u = d :: u' := by
    cases u with
    | nil => cases hqs
    | cons e u =>
      cases hqs
      exact ⟨u, rfl⟩
  cases hmark : m.afterMark? c d with
  | none => rfl
  | some n =>
    obtain ⟨mark, hmem, hi⟩ := isInfix_of_afterMark? hmark u
    exact (h.noMark mark hmem hi).elim

/-- The scanner comes out of it as it went in. -/
theorem pass_eq (hc : c = ';' ∨ c = ',') (h : IsInert u) (m : Mode) :
    pass [c] m (u.map .plain) = some m := by
  induction u with
  | nil => exact pass_nil
  | cons d u ih =>
    have hd : d ≠ c := by
      rintro rfl
      refine h.plain d ?_ List.mem_cons_self
      rcases hc with rfl | rfl <;> simp
    have hcut : m.cuts [c] d = false := by simp [Mode.cuts, hd]
    rw [List.map_cons, pass_plain (h.noMark_cons m), hcut, if_neg Bool.false_ne_true, h.after_eq m]
    exact ih h.tail

theorem cons_space (h : IsInert u) : IsInert (' ' :: u) where
  plain d hd hm := by
    obtain rfl | hm := List.mem_cons.mp hm
    · simp at hd
    · exact h.plain d hd hm
  noMark mark hmark hi := by
    obtain hp | hi := List.infix_cons_iff.mp hi
    · simp only [List.mem_cons, List.not_mem_nil, or_false] at hmark
      obtain rfl | rfl | rfl := hmark <;> simp at hp
    · exact h.noMark mark hmark hi

end IsInert

/-- What has been read of a statement is only carried along. -/
theorem exists_scan (separator : Text) (m : Mode) (ps : List Piece) :
    ∃ x ys, ∀ sofar ≠ [], scan separator m sofar ps = (sofar.reverse ++ x) :: ys := by
  refine scan_induct separator (motive := fun m _ ps => ∃ x ys, ∀ sofar ≠ [],
    scan separator m sofar ps = (sofar.reverse ++ x) :: ys) ?_ ?_ ?_ ?_ ?_ m [] ps
  · intro m _
    exact ⟨[], [], fun sofar hs => by rw [scan_nil, if_neg hs, List.append_nil]⟩
  · rintro m _ t ps ⟨x, ys, h⟩
    refine ⟨t ++ x, ys, fun sofar hs => ?_⟩
    rw [scan_dollar, h _ (by simp [hs])]
    simp
  · rintro m _ a b n ps hmark ⟨x, ys, h⟩
    refine ⟨a :: b :: x, ys, fun sofar _ => ?_⟩
    rw [scan_mark hmark, h _ (by simp)]
    simp
  · intro m _ a ps hno hcut _
    exact ⟨[a], _, fun sofar _ => by rw [scan_cut hno hcut, List.reverse_cons]⟩
  · rintro m _ a ps hno hcut ⟨x, ys, h⟩
    refine ⟨a :: x, ys, fun sofar _ => ?_⟩
    rw [scan_on hno hcut, h _ (by simp)]
    simp

/-- Pieces in the first statement are not cut, but perhaps at the end of both. -/
theorem exists_pass (sofar : Text) (hps : ∀ p ∈ ps, p.text ≠ []) (hapart : Apart ps qs)
    (h : scan [c] m sofar (ps ++ qs) = (sofar.reverse ++ (textOf ps ++ x)) :: ys)
    (hx : x ≠ [] ∨ ps.getLast? ≠ some (.plain c)) : ∃ n, pass [c] m ps = some n := by
  induction m, sofar, ps using scan_induct [c] with
  | done m sofar => exact ⟨m, pass_nil⟩
  | dollar m sofar t ps ih =>
    rw [pass_dollar]
    rw [List.cons_append, scan_dollar] at h
    refine ih (fun p hp => hps p (List.mem_cons_of_mem _ hp)) hapart.tail ?_ ?_
    · rw [h]
      simp [Piece.text]
    · refine hx.imp_right fun hlast hps' => hlast ?_
      rw [List.getLast?_cons, hps']
      rfl
  | mark m sofar a b n ps hmark ih =>
    rw [pass_mark hmark]
    rw [List.cons_append, List.cons_append, scan_mark hmark] at h
    refine ih (fun p hp => hps p (List.mem_cons_of_mem _ (List.mem_cons_of_mem _ hp)))
      hapart.tail.tail ?_ ?_
    · rw [h]
      simp [Piece.text]
    · refine hx.imp_right fun hlast hps' => hlast ?_
      rw [List.getLast?_cons, List.getLast?_cons, hps']
      rfl
  | cut m sofar a ps hno hcut ih =>
    exfalso
    rw [List.cons_append, scan_cut (hapart.noMark hno) hcut, List.cons.injEq, List.reverse_cons,
      List.append_cancel_left_eq] at h
    have hnil : textOf ps = [] ∧ x = [] := by simpa [Piece.text] using h.1
    cases ps with
    | nil =>
      obtain rfl : a = c := by simpa using (eq_singleton_of_cuts hcut).symm
      simp [hnil.2] at hx
    | cons p ps =>
      rw [textOf_cons, List.append_eq_nil_iff] at hnil
      exact hps p (by simp) hnil.1.1
  | on m sofar a ps hno hcut ih =>
    rw [pass_plain hno, hcut, if_neg Bool.false_ne_true]
    rw [List.cons_append, scan_on (hapart.noMark hno) hcut] at h
    refine ih (fun p hp => hps p (List.mem_cons_of_mem _ hp)) hapart.tail ?_ ?_
    · rw [h]
      simp [Piece.text]
    · refine hx.imp_right fun hlast hps' => hlast ?_
      rw [List.getLast?_cons, hps']
      rfl

/-- Text without dollar signs brings its characters as pieces. -/
theorem ofText_append_plain (hv : '$' ∉ v) (s : Text) :
    ofText (s ++ v) = ofText s ++ v.map .plain := by
  rw [ofText_append_of_not_mem hv, ofText_of_not_mem hv]

theorem text_ne_nil_of_mem_ofText {p : Piece} (h : p ∈ ofText s) : p.text ≠ [] := by
  have hr : Reads s (ofText s) := reads_iff.mpr rfl
  obtain ⟨_, _, hstarts⟩ := hr.exists_starts h
  exact hstarts.text_ne_nil

theorem getLast?_of_ofText (h : (ofText s).getLast? = some (.plain c)) : s.getLast? = some c := by
  obtain ⟨front, hfront⟩ := List.getLast?_eq_some_iff.mp h
  rw [← textOf_ofText s, hfront]
  simp [Piece.text]

/-- A text behind which inert text, begun with a space, may come in: no dollar sign follows, and
nothing that could make a mark. -/
structure Admits (r : Text) : Prop where
  noDollar : '$' ∉ r
  seam : ∀ d ∈ r.head?, d ∉ marks

theorem apart_of_head? (h : ∀ d ∈ t.head?, d ∉ marks) (ps : List Piece) : Apart ps (t.map .plain) := by
  intro a _ m d qs hqs
  have hhead : t.head? = some d := by
    have := congrArg List.head? hqs
    simpa [List.head?_map] using this
  exact afterMark?_eq_none (Or.inr (h d hhead)) m

/-- Inert text comes into the first statement, which is otherwise the same. -/
theorem split_insert (hc : c = ';' ∨ c = ',') (hl : l ≠ []) (hr : Admits r) (hu : IsInert u)
    (hx : x ≠ [] ∨ l.getLast? ≠ some c) (h : split [c] (l ++ r) = (l ++ x) :: ys) :
    split [c] (l ++ (' ' :: u ++ r)) = (l ++ (' ' :: u ++ x)) :: ys := by
  have hu' := hu.cons_space
  have hdollar : '$' ∉ ' ' :: u ++ r := by
    rw [List.mem_append, not_or]
    exact ⟨hu'.plain '$' (by simp), hr.noDollar⟩
  have hspace : ∀ d ∈ (' ' :: u ++ r).head?, d ∉ marks := by
    rintro d ⟨⟩
    decide
  rw [split, ofText_append_plain hr.noDollar] at h
  have hend : x ≠ [] ∨ (ofText l).getLast? ≠ some (.plain c) :=
    hx.imp_right fun hlast hl => hlast (getLast?_of_ofText hl)
  obtain ⟨n, hn⟩ := exists_pass [] (fun p hp => text_ne_nil_of_mem_ofText hp)
    (apart_of_head? hr.seam _) (by simpa using h) hend
  rw [scan_of_pass hn (apart_of_head? hr.seam _)] at h
  rw [split, ofText_append_plain hdollar, scan_of_pass hn (apart_of_head? hspace _),
    List.map_append, scan_of_pass (hu'.pass_eq hc n) (apart_of_head? hr.seam _)]
  obtain ⟨y, zs, hscan⟩ := exists_scan [c] n (r.map .plain)
  rw [hscan _ (by simp [hl]), List.cons.injEq] at h
  obtain ⟨hy, rfl⟩ := h
  obtain rfl : y = x := by simpa using hy
  rw [hscan _ (by simp [hl]), textOf_map_plain, textOf_ofText]
  simp

/-- The statement `y` may stand among others where `x` did. -/
structure StandsFor (c : Char) (y x : Text) : Prop where
  alone : split [c] x = [x] → split [c] y = [y]
  ends : split [c] x = [x] → Ends c x → Ends c y
  dollars : ∀ d, .dollar d ∈ ofText y → .dollar d ∈ ofText x
  tags : ∀ d, IsTag d → d <:+: y → d <:+: x

theorem standsFor_refl (c : Char) (x : Text) : StandsFor c x x :=
  ⟨id, fun _ => id, fun _ => id, fun _ _ => id⟩

/-- A text is cut as before where other statements stand for those it had. -/
theorem split_flatten_of_standsFor (hc : c = ';' ∨ c = ',')
    (h : List.Forall₂ (StandsFor c) ys xs) (hxs : split [c] xs.flatten = xs) :
    split [c] ys.flatten = ys := by
  have hpairwise : xs.Pairwise (Precedes c) := hxs ▸ pairwise_split hc xs.flatten
  have halone : ∀ x ∈ xs, split [c] x = [x] := by
    have hrun := (split_flatten_run [c] xs.flatten).2
    rwa [hxs] at hrun
  clear hxs
  refine split_flatten_of_pairwise hc ?_ ?_
  · induction h with
    | nil => exact .nil
    | @cons y x ys xs hyx hrest ih =>
      obtain ⟨hx, hpairs⟩ := List.pairwise_cons.mp hpairwise
      obtain ⟨halone', hrest'⟩ := List.forall_mem_cons.mp halone
      refine List.pairwise_cons.mpr ⟨fun y' hy' => ?_, ih hpairs hrest'⟩
      obtain ⟨x', hx', hstands⟩ := Lists.exists_mem_of_forall₂ hrest hy'
      have hprecedes := hx x' hx'
      exact ⟨hyx.ends halone' hprecedes.ends, fun d hd htag hi =>
        hprecedes.leavesOpen d (hyx.dollars d hd) htag (hstands.tags d htag hi)⟩
  · intro y hy
    obtain ⟨x, hx, hstands⟩ := Lists.exists_mem_of_forall₂ h hy
    exact hstands.alone (halone x hx)

theorem Admits.concat {d : Char} (h : Admits r) (hd : IsNeutral d) : Admits (r ++ [d]) where
  noDollar := by
    rw [List.mem_append, List.mem_singleton, not_or]
    refine ⟨h.noDollar, ?_⟩
    rintro rfl
    exact hd List.mem_cons_self
  seam := by
    cases r with
    | nil =>
      rintro e ⟨⟩
      exact hd.not_mem_marks
    | cons e r => exact h.seam

/-- A statement with inert text in it may stand where it did without. -/
theorem standsFor_insert (hc : c = ';' ∨ c = ',') (hl : l ≠ []) (hr : Admits r) (hu : IsInert u)
    (hend : r ≠ [] ∨ l.getLast? ≠ some c) : StandsFor c (l ++ (' ' :: u ++ r)) (l ++ r) where
  alone h := split_insert hc hl hr hu hend h
  ends h hends := by
    -- it is cut off what follows
    have hmore : split [c] (l ++ (r ++ ['x'])) = (l ++ r) :: split [c] ['x'] := by
      rw [← List.append_assoc]
      refine split_append_of_ends hc hends h fun d _ htag hi => ?_
      obtain ⟨t, rfl⟩ := htag.exists_tail
      have hmem : '$' ∈ ['x'] := hi.subset List.mem_cons_self
      revert hmem
      decide
    have hcut := split_insert hc hl (hr.concat (d := 'x') (by decide)) hu hend hmore
    refine ends_of_split hc hcut fun hnil => ?_
    have hx := eq_nil_of_split_eq_nil hnil
    cases hx
  dollars d hd := by
    have hdollar : '$' ∉ ' ' :: u ++ r := by
      rw [List.mem_append, not_or]
      exact ⟨hu.cons_space.plain '$' (by simp), hr.noDollar⟩
    rw [ofText_append_plain hdollar] at hd
    rw [ofText_append_of_not_mem hr.noDollar]
    exact List.mem_append_left _ (by simpa using hd)
  tags d htag hi := by
    have hspace : ' ' ∉ d := htag.not_mem (by decide)
    rw [List.cons_append, isInfix_append_cons hspace] at hi
    obtain hi | hi := hi
    · exact hi.trans (List.prefix_append l r).isInfix
    · obtain ⟨t, rfl⟩ := htag.exists_tail
      have hmem := List.mem_append.mp (hi.subset List.mem_cons_self)
      exact (hmem.elim (hu.plain '$' (by simp)) hr.noDollar).elim

end SchemaDump.Statement
