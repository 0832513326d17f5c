import Mathlib.Data.List.Forall2
import Mathlib.Data.List.Infix

/-! What several modules need of lists: joining with a separator between, and what is in them. -/
namespace SchemaDump.Lists

variable {α β γ : Type} {l s : List α} {a c x y : α}

theorem intercalate_cons (c : α) (item : List α) (backs : List (List α)) :
    [c].intercalate (item :: backs) = item ++ backs.flatMap fun back => c :: back := by
  induction backs generalizing item with
  | nil => simp
  | cons back backs ih =>
    rw [List.intercalate_cons_cons, ih]
    simp

theorem intercalate_append_cons (c : α) (fronts : List (List α)) (item : List α)
    (backs : List (List α)) : [c].intercalate (fronts ++ item :: backs) =
      (fronts.flatMap fun front => front ++ [c]) ++
        (item ++ backs.flatMap fun back => c :: back) := by
  induction fronts with
  | nil => exact intercalate_cons c item backs
  | cons front fronts ih =>
    have hne : fronts ++ item :: backs ≠ [] := by simp
    obtain ⟨next, rest, hrest⟩ := List.exists_cons_of_ne_nil hne
    rw [List.cons_append, hrest, List.intercalate_cons_cons, ← hrest, ih]
    simp

theorem not_mem_intercalate {items : List (List α)} (hc : a ≠ c) (h : ∀ item ∈ items, a ∉ item) :
    a ∉ [c].intercalate items := by
  cases items with
  | nil => simp
  | cons item items =>
    obtain ⟨hitem, hitems⟩ := List.forall_mem_cons.mp h
    simpa [intercalate_cons, hitem, hc] using hitems

theorem not_isPrefix_concat (l : List α) (a : α) : ¬ l ++ [a] <+: l := by
  intro h
  have := h.length_le
  rw [List.length_append, List.length_singleton] at this
  omega

/-- Two elements stand beside each other at the start or behind it. -/
theorem pair_isInfix_cons_iff :
    [x, y] <:+: c :: s ↔ (x = c ∧ y ∈ s.head?) ∨ [x, y] <:+: s := by
  rw [List.infix_cons_iff, List.cons_prefix_cons]
  cases s with
  | nil => simp
  | cons d s => simp [List.cons_prefix_cons, eq_comm]

theorem exists_mem_of_forall₂ {R : α → β → Prop} {as : List α} {bs : List β}
    (h : List.Forall₂ R as bs) (ha : a ∈ as) : ∃ b ∈ bs, R a b := by
  induction h with
  | nil => cases ha
  | @cons a' b as bs hab _ ih =>
    obtain rfl | ha := List.mem_cons.mp ha
    · exact ⟨b, List.mem_cons_self, hab⟩
    · obtain ⟨b', hb', hR⟩ := ih ha
      exact ⟨b', List.mem_cons_of_mem b hb', hR⟩

/-- What can be told of each element can be told of all. -/
theorem mapM_map {f : γ → Option α} {g : β → γ} {h : β → α} (hf : ∀ b, f (g b) = some (h b))
    (bs : List β) : (bs.map g).mapM f = some (bs.map h) := by
  have hcomp : f ∘ g = fun b => pure (h b) := funext hf
  rw [List.mapM_map, hcomp, List.mapM_pure]
  rfl

end SchemaDump.Lists
