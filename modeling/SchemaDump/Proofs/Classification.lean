import SchemaDump.Object
import SchemaDump.Proofs.Readings

/-! Which heading decides what a statement is, and how it cuts the statement in two. -/
namespace SchemaDump

open Reading

namespace Classified

variable {s : Text} {c : Classified}

/-- Of the kinds, the first counts that has a heading anywhere in the statement, of its places the
first with such a heading, and there the preferred reading. What stands before is residual. -/
structure Decides (s : Text) (c : Classified) : Prop where
  cut : c.residual ++ c.definition = s
  reads : ∃ rest more, c.kind.heading c.definition = (c.heading, rest) :: more
  firstPlace : ∀ x y, s = x ++ y → x.length < c.residual.length → c.kind.heading y = []
  firstKind : ∃ earlier later, Kind.byPriority = earlier ++ c.kind :: later ∧
    ∀ k ∈ earlier, ∀ u, u <:+ s → k.heading u = []

theorem decides_of_ofStatement? (h : ofStatement? s = some c) : Decides s c := by
  obtain ⟨earlier, kind, later, hkinds, hkind, hearlier⟩ := List.findSome?_eq_some_iff.mp h
  obtain ⟨found, hf, rfl⟩ := Option.map_eq_some_iff.mp hkind
  obtain ⟨front, more, hs, hr, hfirst⟩ := search_eq_some hf
  have hfront : s.take (s.length - found.here.length) = front := by
    rw [hs, List.length_append, Nat.add_sub_cancel, List.take_left]
  refine ⟨?_, ⟨found.rest, more, hr⟩, ?_, earlier, later, hkinds, ?_⟩
  · rw [hfront, ← hs]
  · rw [hfront]
    exact hfirst
  · intro k hk
    exact search_eq_none_iff.mp (Option.map_eq_none_iff.mp (hearlier k hk))

theorem ofStatement?_of_decides (h : Decides s c) : ofStatement? s = some c := by
  obtain ⟨rest, more, hr⟩ := h.reads
  obtain ⟨earlier, later, hkinds, hearlier⟩ := h.firstKind
  have hsearch : c.kind.heading.search s = some ⟨c.heading, c.definition, rest⟩ := by
    rw [← h.cut]
    refine search_of_append hr fun x y hxy => ?_
    exact h.firstPlace x y (h.cut.symm.trans hxy)
  have hresidual : s.take (s.length - c.definition.length) = c.residual := by
    rw [← h.cut, List.length_append, Nat.add_sub_cancel, List.take_left]
  refine List.findSome?_eq_some_iff.mpr ⟨earlier, c.kind, later, hkinds, ?_, ?_⟩
  · rw [hsearch, Option.map_some, hresidual]
  · intro k hk
    rw [search_eq_none_iff.mpr (hearlier k hk), Option.map_none]

theorem ofStatement?_eq_some_iff : ofStatement? s = some c ↔ Decides s c :=
  ⟨decides_of_ofStatement?, ofStatement?_of_decides⟩

/-- A recognised statement is cut in two and loses nothing. -/
theorem residual_append_definition (h : ofStatement? s = some c) :
    c.residual ++ c.definition = s := (decides_of_ofStatement? h).cut

end Classified
end SchemaDump
