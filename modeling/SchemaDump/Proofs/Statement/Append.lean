import SchemaDump.Proofs.Statement.Split
import SchemaDump.Proofs.Statement.Tokens
import Mathlib.Data.List.Infix

/-! A text put behind another. If the scan of the first ends right behind a cut, and no tag left
open in it is closed by the second, both keep their pieces and are cut into the statements that each
of them has alone. -/
namespace SchemaDump

namespace Text

variable {c : Char} {s t u : Text}

/-- A text without `c` does not reach across a `c`. -/
theorem isInfix_append_cons (hc : c ∉ t) : t <:+: s ++ c :: u ↔ t <:+: s ∨ t <:+: u := by
  constructor
  · intro h
    obtain h | h | ⟨x, y, rfl, hx, hy⟩ := List.infix_append_iff.mp h
    · exact Or.inl h
    · obtain h | h := List.infix_cons_iff.mp h
      · obtain rfl | ⟨y, rfl, -⟩ := List.prefix_cons_iff.mp h
        · exact Or.inl (List.nil_infix)
        · simp at hc
      · exact Or.inr h
    · obtain rfl | ⟨y, rfl, -⟩ := List.prefix_cons_iff.mp hy
      · exact Or.inl (by simpa using hx.isInfix)
      · simp at hc
  · rintro (h | h)
    · exact h.trans (List.prefix_append s _).isInfix
    · exact h.trans ((List.suffix_cons c u).trans (List.suffix_append s _)).isInfix

end Text

namespace Piece

variable {s t v rest tag : Text} {c : Char} {p : Piece} {ps qs : List Piece}

/-- A character that no tag has. -/
def isOutsideTags (c : Char) : Bool := c ≠ '$' && !continuesTag c

theorem IsTag.not_mem (h : IsTag tag) (hc : isOutsideTags c = true) : c ∉ tag := by
  obtain ⟨hd, hn⟩ : c ≠ '$' ∧ continuesTag c = false := by simpa [isOutsideTags] using hc
  cases h with
  | bare => simpa using hd
  | @named d name hstart hname =>
    have hcd : c ≠ d := by
      rintro rfl
      have : continuesTag c = true := by
        simp only [startsTag, continuesTag, Char.isAlphanum, Bool.or_eq_true] at hstart ⊢
        exact hstart.imp_left Or.inl
      simp [this] at hn
    have hcn : c ∉ name := fun hm => by simp [hname c hm] at hn
    simp [hd, hcd, hcn]

theorem IsTag.count_dollar (h : IsTag tag) : tag.count '$' = 2 := by
  cases h with
  | bare => rfl
  | @named d name hstart hname =>
    have hd : d ≠ '$' := startsTag_ne hstart
    have hn : name.count '$' = 0 := List.count_eq_zero.mpr fun hm =>
      absurd (hname _ hm) (by decide)
    simp [hd, hn]

/-- A tag that is a piece alone is never closed. -/
theorem Starts.not_isInfix (h : Starts s (.dollar t) rest) (ht : IsTag t) : ¬ t <:+: rest := by
  cases h with
  | @quotation tag body _ htag _ =>
    have h₂ := ht.count_dollar
    simp only [List.count_append, htag.count_dollar] at h₂
    omega
  | openTag _ ho => exact ho
  | sign _ => exact absurd ht.count_dollar (by decide)

/-- A piece stays what it is where text is added at the end, if the old end belongs to no tag and a
tag that was open stays open. -/
theorem Starts.lengthen (h : Starts s p rest) (hs : s.getLast? = some c)
    (hc : isOutsideTags c = true) (hv : ∀ t, p = .dollar t → IsTag t → ¬ t <:+: v) :
    Starts (s ++ v) p (rest ++ v) := by
  -- the old end does not stand in a piece that ends in a dollar sign
  have hend : p.text.getLast? = some '$' → ∃ front, rest = front ++ [c] := by
    intro hd
    rw [h.eq_append] at hs
    obtain rfl | ⟨front, d, rfl⟩ := List.eq_nil_or_concat' rest
    · rw [List.append_nil, hd] at hs
      obtain rfl := Option.some.inj hs
      simp [isOutsideTags] at hc
    · obtain rfl : d = c := by simpa using hs
      exact ⟨front, rfl⟩
  cases h with
  | plain hd => exact .plain hd
  | quotation htag hb =>
    simpa [List.append_assoc] using Starts.quotation (s := rest ++ v) htag hb
  | openTag htag ho =>
    obtain ⟨front, rfl⟩ := hend (by
      obtain ⟨front, rfl⟩ := htag.exists_front
      simp [text])
    rw [List.append_assoc]
    refine .openTag htag fun hi => ?_
    rw [List.append_assoc, List.singleton_append,
      Text.isInfix_append_cons (htag.not_mem hc)] at hi
    obtain hi | hi := hi
    · exact ho (hi.trans (List.prefix_append front [c]).isInfix)
    · exact hv _ rfl htag hi
  | sign hn =>
    obtain ⟨front, rfl⟩ := hend (by simp [text])
    refine .sign fun tag htag hp => ?_
    have hp : tag <+: ('$' :: front) ++ c :: v := by simpa using hp
    obtain hle | hlt := Nat.lt_or_ge ('$' :: front).length tag.length
    · have hct : '$' :: (front ++ [c]) <+: tag := by
        refine List.prefix_of_prefix_length_le ⟨v, by simp⟩ hp ?_
        simp only [List.length_cons, List.length_append, List.length_nil] at hle ⊢
        omega
      exact htag.not_mem hc (hct.subset (by simp))
    · have hpt := List.prefix_of_prefix_length_le hp (List.prefix_append _ _) hlt
      exact hn tag htag (hpt.trans ⟨[c], by simp⟩)

/-- The pieces of a text put behind another are its own pieces. -/
theorem ofText_append (hs : s.getLast? = some c) (hc : isOutsideTags c = true)
    (hv : ∀ t, .dollar t ∈ ofText s → IsTag t → ¬ t <:+: v) :
    ofText (s ++ v) = ofText s ++ ofText v := by
  have hr : Reads s (ofText s) := reads_iff.mpr rfl
  generalize ofText s = ps at hr hv ⊢
  induction hr with
  | nil => simp at hs
  | @cons s rest p ps hp hr ih =>
    have hlong := hp.lengthen hs hc fun t ht => hv t (ht ▸ List.mem_cons_self)
    rw [hlong.ofText_eq, List.cons_append]
    congr 1
    by_cases hrest : rest = []
    · subst hrest
      obtain rfl := (reads_iff.mp hr).symm.trans ofText_nil
      rfl
    · refine ih ?_ fun t ht => hv t (List.mem_cons_of_mem p ht)
      rwa [hp.eq_append, List.getLast?_append_of_ne_nil _ hrest] at hs

/-- Where two texts are read one apart from the other, the second closes no tag of the first. -/
theorem not_isInfix_of_ofText_append (h : ofText (s ++ v) = ofText s ++ ofText v)
    (ht : .dollar t ∈ ofText s) (htag : IsTag t) : ¬ t <:+: v := by
  obtain ⟨ps, qs, hs⟩ := List.append_of_mem ht
  have hr : Reads (s ++ v) (ps ++ .dollar t :: (qs ++ ofText v)) := reads_iff.mpr (by simp [h, hs])
  have hr := hr.append_right
  generalize textOf (.dollar t :: (qs ++ ofText v)) = u at hr
  cases hr with
  | @cons _ rest _ _ hp hr =>
    have hrest : v <:+ rest := by
      rw [← hr.textOf_eq, textOf_append, textOf_ofText]
      exact List.suffix_append _ v
    exact fun hi => hp.not_isInfix htag (hi.trans hrest.isInfix)

end Piece

namespace Statement

open Piece

variable {separator s v : Text} {c : Char} {m : Mode} {ps qs : List Piece} {l : Loop}

/-- The characters that separate statements and columns stand in no tag. -/
theorem isOutsideTags_separator (hc : c = ';' ∨ c = ',') : isOutsideTags c = true := by
  rcases hc with rfl | rfl <;> decide

/-- They begin no mark. -/
theorem afterMark?_separator (hc : c = ';' ∨ c = ',') (m : Mode) (d : Char) :
    m.afterMark? c d = none := by
  rcases hc with rfl | rfl <;> cases m <;> rfl

theorem NoMark.append (h : NoMark m c ps) (hps : ps ≠ []) : NoMark m c (ps ++ qs) := by
  intro d rs he
  cases ps with
  | nil => exact (hps rfl).elim
  | cons p ps =>
    cases he
    exact h d ps rfl

namespace Loop

/-- What comes behind the text is scanned as the loop stands. This may fail between two characters
that make a mark, but not behind a cut. -/
def Continues (c : Char) (s : Text) (l : Loop) : Prop :=
  ∃ m, l.flags = .ofMode m ∧ (l.sofar = [] → m = .code) ∧
    ∀ qs, (l.rest ≠ [] ∨ l.sofar = [] ∨ ∀ m d, NoMark m d qs) →
      scan [c] .code [] (ofText s ++ qs) =
        l.found ++ scan [c] m l.sofar.reverse (ofText l.rest ++ qs)

theorem continues_start (c : Char) (s : Text) : Continues c s (start s) :=
  ⟨.code, rfl, fun _ => rfl, fun _ _ => rfl⟩

theorem continues_step (hc : c = ';' ∨ c = ',') (h : Continues c s l) :
    Continues c s (l.step [c]) := by
  obtain ⟨m, hf, hm, hs⟩ := h
  by_cases hr : l.rest = []
  · rw [show l.step [c] = l by simp [step, hr]]
    exact ⟨m, hf, hm, hs⟩
  have hs := fun qs => hs qs (Or.inl hr)
  obtain ⟨t, u, hp, he⟩ | ⟨a, b, n, u, hp, hmark, he⟩ | ⟨a, u, hp, hno, he⟩ :=
    step_cases [c] hf hr
  · rw [he]
    refine ⟨m, hf, fun ht => hm (List.append_eq_nil_iff.mp ht).1, fun qs _ => ?_⟩
    rw [hs, hp, List.cons_append, scan_dollar, List.reverse_append]
  · rw [he]
    refine ⟨n, rfl, by simp, fun qs _ => ?_⟩
    rw [hs, hp, List.cons_append, List.cons_append, scan_mark hmark]
    simp
  · by_cases hcut : m.cuts [c] a
    · rw [he, if_pos hcut]
      refine ⟨.code, rfl, fun _ => rfl, fun qs _ => ?_⟩
      obtain rfl : c = a := by simpa using eq_singleton_of_cuts hcut
      have hno' : NoMark m c (ofText u ++ qs) := fun d _ _ => afterMark?_separator hc m d
      rw [hs, hp, List.cons_append, scan_cut hno' hcut]
      simp
    · rw [he, if_neg hcut]
      refine ⟨m.after a, rfl, by simp, fun qs hu => ?_⟩
      have hno' : NoMark m a (ofText u ++ qs) := by
        obtain hu | hu | hqs := hu
        · refine hno.append fun hn => hu ?_
          rw [← textOf_ofText u, hn, textOf_nil]
        · simp at hu
        · by_cases hn : ofText u = []
          · rw [hn]
            exact hqs m a
          · exact hno.append hn
      rw [hs, hp, List.cons_append, scan_on hno' (by simpa using hcut)]
      simp

theorem continues_iterate (hc : c = ';' ∨ c = ',') (n : Nat) :
    Continues c s ((step [c])^[n] (start s)) := by
  induction n with
  | zero => exact continues_start c s
  | succ n ih =>
    rw [Function.iterate_succ_apply']
    exact continues_step hc ih

/-- The loop at the end of the text. -/
def atEnd (separator s : Text) : Loop := (step separator)^[s.length] (start s)

/-- A scan that ends right behind a cut begins anew with what follows. -/
theorem scan_append_of_atEnd (hc : c = ';' ∨ c = ',') (hs : (atEnd [c] s).sofar = [])
    (qs : List Piece) :
    scan [c] .code [] (ofText s ++ qs) = split [c] s ++ scan [c] .code [] qs := by
  obtain ⟨m, -, hm, happend⟩ := continues_iterate (s := s) hc s.length
  have hrest : (atEnd [c] s).rest = [] := rest_iterate_length [c] s
  have hfound : (atEnd [c] s).statements = split [c] s := statements_iterate_length [c] s
  rw [← atEnd] at hm happend
  rw [happend qs (Or.inr (Or.inl hs)), hm hs, hs, hrest, ← hfound]
  simp [statements, hs]

/-- Between two cuts a blank at the end lengthens the last statement. -/
theorem scan_append_blank (hc : c = ';' ∨ c = ',') (hs : (atEnd [c] s).sofar ≠ []) :
    scan [c] .code [] (ofText s ++ [.plain ' ']) =
      (atEnd [c] s).found ++ [(atEnd [c] s).sofar ++ [' ']] := by
  obtain ⟨m, -, -, happend⟩ := continues_iterate (s := s) hc s.length
  have hrest : (atEnd [c] s).rest = [] := rest_iterate_length [c] s
  have hno : ∀ m d, NoMark m d [.plain ' '] := by
    intro m d e qs he
    cases he
    cases m <;> simp [Mode.afterMark?]
  have hcut : m.cuts [c] ' ' = false := by
    rcases hc with rfl | rfl <;> simp [Mode.cuts]
  rw [← atEnd] at happend
  rw [happend _ (Or.inr (Or.inr hno)), hrest, ofText_nil, List.nil_append,
    scan_on (noMark_nil m ' ') hcut, scan_nil, if_neg (List.cons_ne_nil _ _)]
  simp

theorem getLast?_of_atEnd (hc : c = ';' ∨ c = ',') (hs : (atEnd [c] s).sofar = [])
    (hne : s ≠ []) : s.getLast? = some c := by
  -- with one more statement behind it, the last statement of the text is none that may lack `c`
  have hx : scan [c] .code [] [.plain 'x'] = [['x']] := by
    rcases hc with rfl | rfl <;> decide
  have hscan := hx ▸ scan_append_of_atEnd hc hs [.plain 'x']
  obtain hnil | ⟨sts, st, hsplit⟩ := List.eq_nil_or_concat' (split [c] s)
  · have := flatten_split [c] s
    rw [hnil] at this
    exact (hne this.symm).elim
  · have hst : st ∈ (scan [c] .code [] (ofText s ++ [.plain 'x'])).dropLast := by
      rw [hscan, List.dropLast_concat, hsplit]
      simp
    obtain ⟨t, d, hd, rfl⟩ := ends_of_mem_dropLast_scan hst
    obtain rfl : c = d := by simpa using hd
    rw [← flatten_split [c] s, hsplit]
    simp

end Loop

/-- Each of the two texts is cut as it is alone, if the scan of the first ends right behind a cut
and the second closes none of its tags. -/
theorem split_append_of_atEnd (hc : c = ';' ∨ c = ',') (hs : (Loop.atEnd [c] s).sofar = [])
    (hv : ∀ t, .dollar t ∈ ofText s → IsTag t → ¬ t <:+: v) :
    split [c] (s ++ v) = split [c] s ++ split [c] v := by
  by_cases hne : s = []
  · simp [hne, split, scan_nil]
  · have hlast := Loop.getLast?_of_atEnd hc hs hne
    rw [split, ofText_append hlast (isOutsideTags_separator hc) hv]
    exact Loop.scan_append_of_atEnd hc hs (ofText v)

/-- Cut apart, two texts are read apart. -/
theorem ofText_append_of_split
    (h : split separator (s ++ v) = split separator s ++ split separator v) :
    ofText (s ++ v) = ofText s ++ ofText v := by
  obtain ⟨ps, qs, hp, hs, hv⟩ := exists_append_of_split h
  obtain ⟨hps, hqs⟩ := ofText_textOf_of_append hp
  have hs : textOf ps = s := by
    rw [← flatten_split separator s, ← hs, flatten_scan, List.reverse_nil, List.nil_append]
  have hv : textOf qs = v := by
    rw [← flatten_split separator v, ← hv, flatten_scan, List.reverse_nil, List.nil_append]
  rw [hp, ← hps, ← hqs, hs, hv]

/-- A blank behind a scan that does not end behind a cut is no statement of its own. -/
theorem atEnd_of_split_append_blank (hc : c = ';' ∨ c = ',')
    (h : split [c] (s ++ [' ']) = split [c] s ++ split [c] [' ']) :
    (Loop.atEnd [c] s).sofar = [] := by
  by_contra hs
  have hblank : ofText [' '] = [.plain ' '] := by
    rw [(Starts.plain (s := []) (by decide)).ofText_eq, ofText_nil]
  have hlast : split [c] s = (Loop.atEnd [c] s).found ++ [(Loop.atEnd [c] s).sofar] := by
    rw [← statements_iterate_length, ← Loop.atEnd]
    simp [Loop.statements, hs]
  have hone : split [c] [' '] = [[' ']] := by
    rcases hc with rfl | rfl <;> decide +kernel
  rw [split, ofText_append_of_split h, hblank, Loop.scan_append_blank hc hs, hlast, hone] at h
  simp at h

/-- A text keeps its statements before every other text if and only if its scan ends right behind a
cut and leaves no tag open. -/
theorem split_append_iff (hc : c = ';' ∨ c = ',') (s : Text) :
    ((Loop.atEnd [c] s).sofar = [] ∧ ∀ t, .dollar t ∈ ofText s → ¬ IsTag t) ↔
      ∀ v, split [c] (s ++ v) = split [c] s ++ split [c] v := by
  constructor
  · rintro ⟨hs, hclosed⟩ v
    exact split_append_of_atEnd hc hs fun t ht htag => (hclosed t ht htag).elim
  · intro h
    refine ⟨atEnd_of_split_append_blank hc (h [' ']), fun t ht htag => ?_⟩
    exact not_isInfix_of_ofText_append (ofText_append_of_split (h t)) ht htag List.infix_rfl

theorem split_append_iff_all_constructs :
    let s := "SELECT ';', \";\", $x$;'$x$ -- ;\n /* ; */, $1;".toList
    (';' = ';' ∨ ';' = ',') ∧ (Loop.atEnd [';'] s).sofar = [] ∧
      (∀ t, .dollar t ∈ ofText s → ¬ IsTag t) ∧
      (∀ v, split [';'] (s ++ v) = s :: split [';'] v) ∧
      ∃ v, split [';'] ("$x$;".toList ++ v) ≠ split [';'] "$x$;".toList ++ split [';'] v := by
  intro s
  have hcut : (Loop.atEnd [';'] s).sofar = [] := by decide +kernel
  have hfew : ∀ p ∈ ofText s, p.text.count '$' ≠ 2 := by decide +kernel
  have hclosed : ∀ t, .dollar t ∈ ofText s → ¬ IsTag t :=
    fun t ht htag => hfew _ ht htag.count_dollar
  have hone : split [';'] s = [s] := by decide +kernel
  refine ⟨Or.inl rfl, hcut, hclosed, fun v => ?_, ?_⟩
  · rw [(split_append_iff (Or.inl rfl) s).mp ⟨hcut, hclosed⟩ v, hone, List.singleton_append]
  · by_contra hall
    have hopen := (split_append_iff (Or.inl rfl) "$x$;".toList).mpr
      fun v => by_contra fun hv => hall ⟨v, hv⟩
    exact hopen.2 "$x$".toList (by decide +kernel) (by decide)

end Statement
end SchemaDump
