import SchemaDump.Column
import SchemaDump.Proofs.Readings

/-! Readings that end before some end of the text do not depend on it. Only a double quote at its
start could belong to a quoted name before it. -/
namespace SchemaDump

variable {α β : Type} {s v x rest : Text}

theorem eq_drop_of_append {n : Nat} (hr : rest ≠ []) (h : rest ++ v = (x ++ v).drop n) :
    n < x.length ∧ rest = x.drop n := by
  have hn : n < x.length := by
    by_contra hn
    have hlen := congrArg List.length h
    have := List.length_pos_iff.mpr hr
    rw [List.length_append, List.length_drop, List.length_append] at hlen
    omega
  refine ⟨hn, ?_⟩
  rw [List.drop_append_of_le_length hn.le] at h
  exact List.append_cancel_right h

theorem eq_trimStart_of_append (hr : rest ≠ []) (h : rest ++ v = Text.trimStart (x ++ v)) :
    rest = Text.trimStart x := by
  rw [Text.trimStart, List.dropWhile_append] at h
  split at h
  · have hlen := congrArg List.length h
    have := List.length_pos_iff.mpr hr
    have := (List.dropWhile_sublist (l := v) Text.isBlank).length_le
    rw [List.length_append] at hlen
    omega
  · exact List.append_cancel_right h

namespace Reading

variable {r t : Reading α} {f : α → Reading β}

/-- Each reading leaves an end of the text, and if this is more than `v`, it is a reading of what
stands before `v` alone. -/
structure IsLocal (v : Text) (r : Reading α) : Prop where
  isSuffix : ∀ {s a rest}, (a, rest) ∈ r s → rest <:+ s
  cut : ∀ {x a rest}, rest ≠ [] → (a, rest ++ v) ∈ r (x ++ v) → (a, rest) ∈ r x

theorem isLocal_pure (a : α) : IsLocal v (pure a : Reading α) where
  isSuffix h := (mem_pure.mp h).2 ▸ List.suffix_rfl
  cut _ h := by
    obtain ⟨rfl, hx⟩ := mem_pure.mp h
    exact mem_pure.mpr ⟨rfl, List.append_cancel_right hx⟩

theorem IsLocal.bind (hr : IsLocal v r) (hf : ∀ a, IsLocal v (f a)) : IsLocal v (r >>= f) where
  isSuffix h := by
    obtain ⟨a, u, ha, hb⟩ := mem_bind.mp h
    exact ((hf a).isSuffix hb).trans (hr.isSuffix ha)
  cut {x b rest} hrest h := by
    obtain ⟨a, u, ha, hb⟩ := mem_bind.mp h
    obtain ⟨front, rfl⟩ := (hf a).isSuffix hb
    rw [← List.append_assoc] at ha hb
    exact mem_bind.mpr ⟨a, front ++ rest, hr.cut (by simp [hrest]) ha, (hf a).cut hrest hb⟩

theorem IsLocal.orElse (hr : IsLocal v r) (ht : IsLocal v t) : IsLocal v (r <|> t) where
  isSuffix h := (mem_orElse.mp h).elim hr.isSuffix ht.isSuffix
  cut hrest h := mem_orElse.mpr ((mem_orElse.mp h).imp (hr.cut hrest) (ht.cut hrest))

theorem IsLocal.optional (hr : IsLocal v r) : IsLocal v (optional r) :=
  (hr.bind fun a => isLocal_pure (some a)).orElse (isLocal_pure none)

theorem isLocal_word (w : String) : IsLocal v (word w) where
  isSuffix h := by
    obtain ⟨front, rfl, -⟩ := Text.afterWord_eq_some_iff.mp (mem_word.mp h)
    exact List.suffix_append front _
  cut {x _ rest} _ h := by
    obtain ⟨front, hx, hw⟩ := Text.afterWord_eq_some_iff.mp (mem_word.mp h)
    rw [← List.append_assoc] at hx
    exact mem_word.mpr (Text.afterWord_eq_some_iff.mpr ⟨front, List.append_cancel_right hx, hw⟩)

theorem isLocal_gap : IsLocal v gap where
  isSuffix h := mem_gap.mp h ▸ List.dropWhile_suffix _
  cut hrest h := mem_gap.mpr (eq_trimStart_of_append hrest (mem_gap.mp h))

theorem isLocal_blanks : IsLocal v blanks where
  isSuffix h := by
    obtain ⟨c, s, rfl, -, rfl⟩ := mem_blanks.mp h
    exact (List.dropWhile_suffix _).trans (List.suffix_cons c s)
  cut {x _ rest} hrest h := by
    obtain ⟨c, s, hx, hc, hs⟩ := mem_blanks.mp h
    cases x with
    | nil =>
      have hlen := congrArg List.length hs
      have := List.length_pos_iff.mpr hrest
      have := (List.dropWhile_sublist (l := s) Text.isBlank).length_le
      have := congrArg List.length hx
      simp [Text.trimStart] at *
      omega
    | cons d x =>
      cases hx
      exact mem_blanks.mpr ⟨c, x, rfl, hc, eq_trimStart_of_append hrest hs⟩

theorem isLocal_char (c : Char) : IsLocal v (char c) where
  isSuffix h := mem_char.mp h ▸ List.suffix_cons c _
  cut {x _ rest} _ h := by
    have hx := mem_char.mp h
    rw [← List.cons_append] at hx
    exact mem_char.mpr (List.append_cancel_right hx)

theorem isLocal_ahead {p : Text → Bool} (hp : ∀ s, s ≠ [] → p (s ++ v) = p s) :
    IsLocal v (ahead p) where
  isSuffix h := (mem_ahead.mp h).2 ▸ List.suffix_rfl
  cut {x _ rest} hrest h := by
    obtain ⟨ha, hx⟩ := mem_ahead.mp h
    obtain rfl := List.append_cancel_right hx
    exact mem_ahead.mpr ⟨hp _ hrest ▸ ha, rfl⟩

/-- Where nothing is found before `v` alone, what is found first does not end before `v`. -/
theorem IsLocal.length_rest_le {front : Text} {found : Found α} (hr : IsLocal v r)
    (hfront : search r front = none) (h : search r (front ++ v) = some found) :
    found.rest.length ≤ v.length := by
  by_contra hlt
  obtain ⟨before, more, hs, hread, -⟩ := search_eq_some h
  have hmem : (found.value, found.rest) ∈ r found.here := hread ▸ List.mem_cons_self
  have hrest := hr.isSuffix hmem
  have hhere : found.here <:+ front ++ v := ⟨before, hs.symm⟩
  have hv : v <:+ front ++ v := List.suffix_append front v
  obtain ⟨rest, hrest'⟩ := List.suffix_of_suffix_length_le hv (hrest.trans hhere) (by omega)
  obtain ⟨x, hx⟩ := List.suffix_of_suffix_length_le hv hhere (by have := hrest.length_le; omega)
  rw [← hrest', ← hx] at hmem
  have hne : rest ≠ [] := by
    rintro rfl
    simp [← hrest'] at hlt
  rw [← hx, ← List.append_assoc] at hs
  have hnil := search_eq_none_iff.mp hfront x ⟨before, (List.append_cancel_right hs).symm⟩
  have hcut := hr.cut hne hmem
  rw [hnil] at hcut
  cases hcut

end Reading

namespace Identifier

variable {shorter : List Nat} {n : Nat} {c : Char}

theorem head?_ne_quote (h : ∀ t, s = '"' :: t → False) : s.head? ≠ some '"' := by
  intro hs
  obtain ⟨t, rfl⟩ := List.head?_eq_some_iff.mp hs
  exact h t rfl

theorem closings_lone (h : s.head? ≠ some '"') :
    closings shorter n ('"' :: s) = if n = 1 then shorter else (n + 1) :: shorter := by
  cases s with
  | nil => simp [closings]
  | cons c s =>
    rw [closings]
    rintro rest heq
    cases heq
    exact h rfl

theorem closings_inner (hc : c ≠ '"') :
    closings shorter n (c :: s) = closings shorter (n + 1) s := by
  rw [closings]
  · rintro rest heq _
    exact hc heq
  · exact fun heq => hc heq

/-- A longer name comes first. -/
theorem closings_eq (shorter : List Nat) (n : Nat) (s : Text) :
    closings shorter n s = shorter ∨ ∃ k more, closings shorter n s = k :: more ∧ n < k := by
  induction shorter, n, s using closings.induct with
  | case1 shorter n s ih =>
    rw [closings]
    obtain h | ⟨k, more, h, hk⟩ := ih
    · rw [h]
      split
      · exact Or.inl rfl
      · exact Or.inr ⟨n + 1, shorter, rfl, n.lt_succ_self⟩
    · exact Or.inr ⟨k, more, h, by omega⟩
  | case2 shorter s hs =>
    left
    rw [closings_lone (head?_ne_quote hs), if_pos rfl]
  | case3 shorter n s hs hn =>
    rw [closings_lone (head?_ne_quote hs), if_neg hn]
    exact Or.inr ⟨n + 1, shorter, rfl, n.lt_succ_self⟩
  | case4 shorter n c s _ hc ih =>
    rw [closings_inner hc]
    exact ih.imp_right fun ⟨k, more, h, hk⟩ => ⟨k, more, h, by omega⟩
  | case5 shorter n => exact Or.inl rfl

/-- The lengths of a quoted name that are found before `v` are found without it. -/
theorem closings_append (hv : v.head? ≠ some '"') (shorter : List Nat) (n : Nat) (s : Text) :
    closings shorter n (s ++ v) = closings shorter n s ∨
      closings shorter n (s ++ v) = closings (closings shorter n s) (n + s.length) v := by
  induction shorter, n, s using closings.induct with
  | case1 shorter n s ih =>
    rw [List.cons_append, List.cons_append, closings, closings, List.length_cons, List.length_cons]
    refine ih.imp_right fun h => ?_
    rw [h]
    congr 1
    omega
  | case2 shorter s hs | case3 shorter n s hs _ =>
    left
    have happend : (s ++ v).head? ≠ some '"' := by
      cases s with
      | nil => exact hv
      | cons c s => simpa using head?_ne_quote hs
    rw [List.cons_append, closings_lone happend, closings_lone (head?_ne_quote hs)]
  | case4 shorter n c s _ hc ih =>
    rw [List.cons_append, closings_inner hc, closings_inner hc, List.length_cons]
    refine ih.imp_right fun h => ?_
    rw [h]
    congr 1
    omega
  | case5 shorter n => exact Or.inr rfl

/-- The length of an identifier that ends before `v` is its length without it. -/
theorem head?_lengths_of_append (hv : v.head? ≠ some '"') (hn : n < s.length)
    (h : (lengths (s ++ v)).head? = some n) : (lengths s).head? = some n := by
  cases s with
  | nil => simp at hn
  | cons c s =>
    rw [List.length_cons] at hn
    rw [List.cons_append, lengths] at h
    rw [lengths]
    split_ifs at h ⊢ with hquote hstart
    · obtain ha | ha := closings_append hv [] 1 s
      · rwa [ha] at h
      · obtain hb | ⟨k, more, hb, hk⟩ := closings_eq (closings [] 1 s) (1 + s.length) v
        · rwa [ha, hb] at h
        · rw [ha, hb] at h
          cases h
          omega
    · rw [List.takeWhile_append] at h
      split_ifs at h with hall
      · simp at h
        omega
      · exact h
    · exact h

end Identifier

open Reading

theorem mem_identifier {a : Text} : (a, rest) ∈ identifier s ↔
    ∃ n, (Identifier.lengths s).head? = some n ∧ a = s.take n ∧ rest = s.drop n := by
  rw [identifier, identifierBefore]
  cases Identifier.lengths s <;> simp

theorem isLocal_identifier (hv : v.head? ≠ some '"') : IsLocal v identifier where
  isSuffix h := by
    obtain ⟨n, -, -, rfl⟩ := mem_identifier.mp h
    exact List.drop_suffix n _
  cut {x a rest} hrest h := by
    obtain ⟨n, hn, ha, hr⟩ := mem_identifier.mp h
    obtain ⟨hlt, hr⟩ := eq_drop_of_append hrest hr
    rw [List.take_append_of_le_length hlt.le] at ha
    exact mem_identifier.mpr ⟨n, Identifier.head?_lengths_of_append hv hlt hn, ha, hr⟩

theorem isLocal_qualifiedName (hv : v.head? ≠ some '"') : IsLocal v qualifiedName := by
  refine IsLocal.orElse ?_ ?_
  · refine (isLocal_identifier hv).bind fun schema => (isLocal_char '.').bind fun _ => ?_
    exact (isLocal_identifier hv).bind fun name => isLocal_pure _
  · exact (isLocal_identifier hv).bind fun name => isLocal_pure _

namespace Heading

theorem isLocal_tableWords : IsLocal v tableWords := by
  refine IsLocal.bind ?_ fun _ => (isLocal_word "TABLE").bind fun _ => ?_
  · refine IsLocal.bind (IsLocal.optional ?_) fun _ => isLocal_pure _
    exact (isLocal_word "UNLOGGED").bind fun _ => isLocal_blanks
  · refine IsLocal.bind (IsLocal.optional ?_) fun _ => isLocal_pure _
    refine isLocal_blanks.bind fun _ => (isLocal_word "IF").bind fun _ => ?_
    refine isLocal_blanks.bind fun _ => (isLocal_word "NOT").bind fun _ => ?_
    exact isLocal_blanks.bind fun _ => isLocal_word "EXISTS"

theorem isLocal_creation (hv : v.head? ≠ some '"') {what : Reading Unit} (hw : IsLocal v what) :
    IsLocal v (creation what) := by
  refine (isLocal_word "CREATE").bind fun _ => isLocal_blanks.bind fun _ => hw.bind fun _ => ?_
  exact isLocal_blanks.bind fun _ => (isLocal_qualifiedName hv).bind fun _ => isLocal_pure _

end Heading

namespace Column

theorem isLocal_tableHeader (hv : v.head? ≠ some '"') : IsLocal v tableHeader := by
  refine (Heading.isLocal_creation hv Heading.isLocal_tableWords).bind fun _ => ?_
  refine isLocal_gap.bind fun _ => isLocal_ahead fun s hs => ?_
  cases s with
  | nil => exact (hs rfl).elim
  | cons c s => rfl

end Column
end SchemaDump
