import SchemaDump.Proofs.Definitions

/-! Text before a heading. A heading is read from its first letter on, so what stands before it
decides nothing: a definition that is cut out, or has more text put before it, is recognised as the
same, unless that text brings headings of its own. -/
namespace SchemaDump

open Text Reading

namespace Text

variable {c : Char}

/-- Only S, I and K are capitals of letters beyond ASCII. -/
theorem capital_eq_toUpper (h : capital c ∉ ['S', 'I', 'K']) : capital c = c.toUpper := by
  have hascii : ∀ n < 123, 97 ≤ n → Char.ofNat (n - 32) = (Char.ofNat n).toUpper := by decide
  rw [capital] at h ⊢
  split_ifs at h ⊢ with hletter hs hi hk
  · have ha : 97 ≤ c.toNat := hletter.1
    have hz : c.toNat ≤ 122 := hletter.2
    rw [hascii c.toNat (by omega) ha, Char.ofNat_toNat]
  · simp at h
  · simp at h
  · simp at h
  · have hupper : c.toUpper = c := dif_neg hletter
    exact hupper.symm

end Text

variable {α : Type} {p s : Text} {r : Reading α}

/-- A search goes past places where nothing can be read. -/
theorem Reading.search_append (h : ∀ x y, p = x ++ y → y ≠ [] → r (y ++ s) = []) :
    search r (p ++ s) = search r s := by
  induction p with
  | nil => rfl
  | cons c p ih =>
    have hnil : r (c :: (p ++ s)) = [] := h [] (c :: p) rfl (List.cons_ne_nil c p)
    rw [List.cons_append, search, hnil]
    exact ih fun x y hxy => h (c :: x) y (congrArg (c :: ·) hxy)

namespace Heading

/-- The text ends in a blank and has no keyword of headings in it, in any letter case. -/
structure IsFree (p : Text) : Prop where
  ends : p.getLast?.any isBlank = true
  noKeyword : ∀ w ∈ ["CREATE", "ALTER"], ¬ w.toList <:+: p.map Char.toUpper

theorem map_capital_keyword {w : String} (hw : w ∈ ["CREATE", "ALTER"]) {word : Text}
    (hword : word.map capital = w.toList) : word.map Char.toUpper = w.toList := by
  have hletters : ∀ w ∈ ["CREATE", "ALTER"],
      (w.toList.all fun k => k ∉ ['S', 'I', 'K']) = true := by decide
  rw [← hword]
  refine List.map_congr_left fun c hc => (capital_eq_toUpper ?_).symm
  have hletter := List.all_eq_true.mp (hletters w hw) (capital c) (hword ▸ List.mem_map_of_mem hc)
  exact of_decide_eq_true hletter

/-- No heading begins in text without keywords: a keyword would have to go on behind its last
blank. -/
theorem IsFree.opens_append (hp : IsFree p) {x y : Text} (hxy : p = x ++ y) (hy : y ≠ [])
    (s : Text) : opens (y ++ s) = false := by
  by_contra ho
  obtain ⟨w, hw, word, c, rest, he, hword, -⟩ := opens_iff.mp (by simpa using ho)
  have hletters : ∀ w ∈ ["CREATE", "ALTER"], w.toList.any isBlank = false := by decide
  obtain ⟨b, hb, hblank⟩ := (Option.any_eq_true _ _).mp hp.ends
  have hlast : b ∈ y := by
    rw [hxy, List.getLast?_append_of_ne_nil x hy] at hb
    exact List.mem_of_getLast? hb
  obtain ⟨z, hz, -⟩ | ⟨z, hz, -⟩ := List.append_eq_append_iff.mp he
  · have hmem : b ∈ word := hz ▸ List.mem_append_left z hlast
    have hletter := isBlank_eq_false_of_map_capital (hletters w hw) hword b hmem
    rw [hblank] at hletter
    cases hletter
  · have hin : word <:+: p := ⟨x, z, by rw [hxy, hz, List.append_assoc]⟩
    exact hp.noKeyword w hw (map_capital_keyword hw hword ▸ hin.map Char.toUpper)

end Heading

theorem Kind.search_heading_append (k : Kind) (hp : Heading.IsFree p) (s : Text) :
    k.heading.search (p ++ s) = k.heading.search s := by
  refine search_append fun x y hxy hy => List.eq_nil_iff_forall_not_mem.mpr fun found hfound => ?_
  have ho := k.isOpened_heading _ _ _ hfound
  rw [hp.opens_append hxy hy s] at ho
  cases ho

namespace Classified

/-- Cut at its heading, a statement is recognised as before. So it is with text before it that has
no keyword of headings and ends in a blank: all of this text is residual. -/
theorem ofStatement?_stable (s : Text) :
    (∀ c, ofStatement? s = some c → c.residual ++ c.definition = s ∧
      ofStatement? c.definition = some { c with residual := [] }) ∧
      ∀ p, Heading.IsFree p → ofStatement? (p ++ s) =
        (ofStatement? s).map fun c => { c with residual := p ++ c.residual } := by
  refine ⟨fun c hc => ⟨residual_append_definition hc, ofStatement?_definition hc⟩, fun p hp => ?_⟩
  rw [ofStatement?, ofStatement?, List.map_findSome?]
  congr 1
  funext k
  rw [Function.comp_apply, k.search_heading_append hp, Option.map_map]
  refine Option.map_congr fun found hfound => ?_
  obtain ⟨front, -, hs, -⟩ := search_eq_some hfound
  have hlength : (p ++ s).length - found.here.length =
      p.length + (s.length - found.here.length) := by
    have hle := congrArg List.length hs
    rw [List.length_append] at hle ⊢
    omega
  rw [hlength, List.take_length_add_append, Function.comp_apply]

theorem ofStatement?_stable_constraint :
    let s := "-- é\nALTER TABLE ONLY a.t ADD CONSTRAINT c CHECK (x > 0);".toList
    let p := "SET alt = 'er'; /* re-creat(e) */\n".toList
    let c : Classified :=
      { kind := .constraint
        heading := { schema := ['a'], name := some ['c'], table := some ['t'] }
        definition := "ALTER TABLE ONLY a.t ADD CONSTRAINT c CHECK (x > 0);".toList
        residual := "-- é\n".toList }
    ofStatement? s = some c ∧ Heading.IsFree p ∧ c.residual ++ c.definition = s ∧
      ofStatement? c.definition = some { c with residual := [] } ∧
      ofStatement? (p ++ s) = some { c with residual := p ++ c.residual } := by
  intro s p c
  have hc : ofStatement? s = some c := by decide +kernel
  have hp : Heading.IsFree p := ⟨by decide +kernel, by decide +kernel⟩
  obtain ⟨hcut, hprefix⟩ := ofStatement?_stable s
  obtain ⟨hs, hdefinition⟩ := hcut c hc
  have hbehind := hprefix p hp
  rw [hc] at hbehind
  exact ⟨hc, hp, hs, hdefinition, hbehind⟩

end Classified
end SchemaDump
