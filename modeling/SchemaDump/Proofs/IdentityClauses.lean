import SchemaDump.Clause
import SchemaDump.Proofs.Endings
import SchemaDump.Proofs.Readings

/-! Identity clauses as they are taken from their statements: on one line, and with no blank before
them. -/
namespace SchemaDump.Clause

open Text Reading

variable {s front rest definition clause : Text} {c : Char}

theorem eq_append_of_padded? (h : padded? s = some (front, rest)) : s = front ++ rest := by
  cases s with
  | nil => simp [padded?] at h
  | cons c t =>
    simp only [padded?] at h
    split at h
    · split at h
      · cases h
      · cases h
        rw [List.cons_append, List.takeWhile_append_dropWhile]
    · split at h
      · split at h
        · next hrest =>
          cases h
          rw [List.append_assoc, List.singleton_append, ← hrest, List.cons_append,
            List.takeWhile_append_dropWhile]
        · cases h
      · cases h

theorem paddedRun_append (s : Text) : (paddedRun s).1 ++ (paddedRun s).2 = s := by
  fun_induction paddedRun s with
  | case1 s h => rfl
  | case2 s front rest h hlt more rest' hrun ih =>
    rw [hrun] at ih
    rw [List.append_assoc, ih, ← eq_append_of_padded? h]

theorem mem_of_mem_trim (h : c ∈ trim s) : c ∈ s := by
  have hend : trim s <+: trimStart s := ⟨_, trimEnd_append_rtakeWhile (trimStart s)⟩
  exact (List.dropWhile_sublist isBlank).subset (hend.subset h)

theorem mem_of_mem_tighten (h : c ∈ tighten s) : c ∈ s := by
  fun_induction tighten s with
  | case1 s front rest hp hlt hle run ih =>
    have hrun : run.1 ++ run.2 = rest := paddedRun_append rest
    rw [eq_append_of_padded? hp, ← hrun]
    obtain h | h := List.mem_append.mp h
    · have hmem := mem_of_mem_trim h
      simp only [List.mem_append] at hmem ⊢
      exact hmem.imp_right Or.inl
    · simp [ih h]
  | case2 => exact h
  | case3 d t hp ih =>
    obtain rfl | h := List.mem_cons.mp h
    · exact List.mem_cons_self
    · exact List.mem_cons_of_mem d (ih h)

theorem head?_tighten (h : s.head?.any isBlank = false) : (tighten s).head? = s.head? := by
  fun_induction tighten s with
  | case1 s front rest hp hlt hle run ih =>
    have hs := eq_append_of_padded? hp
    cases front with
    | nil =>
      rw [hs, List.nil_append] at hlt
      omega
    | cons d front =>
      have hd : isBlank d = false := by simpa [hs] using h
      have htrim : trim (d :: front ++ run.1) = d :: trimEnd (front ++ run.1) := by
        rw [trim, trimStart, List.cons_append, List.dropWhile_cons_of_neg (by simp [hd])]
        exact trimEnd_append_of_not_isBlank hd [] (front ++ run.1)
      rw [htrim, hs]
      rfl
  | case2 => rfl
  | case3 d t hp ih => rfl

/-- No line feed is kept. -/
theorem not_mem_squeeze (s : Text) : '\n' ∉ squeeze s := by
  fun_induction squeeze s with
  | case1 => simp
  | case2 d s hd ih =>
    rw [List.mem_append, not_or]
    refine ⟨?_, ih⟩
    unfold squeezeRun
    split
    · split
      · decide
      · next hne =>
        rw [List.mem_singleton]
        exact fun heq => hne heq.symm
    · decide
  | case3 d s hd ih =>
    have hne : '\n' ≠ d := by
      rintro rfl
      revert hd
      decide
    simp [hne, ih]

theorem head?_squeeze (h : s.head?.any isBlank = false) : (squeeze s).head? = s.head? := by
  cases s with
  | nil => rw [squeeze]
  | cons d s =>
    have hd : isBlank d = false := by simpa using h
    rw [squeeze, if_neg (by simp [hd])]
    rfl

theorem dropSemicolon_isPrefix (s : Text) : dropSemicolon s <+: s := by
  have hs : trimEnd s <+: s := ⟨_, trimEnd_append_rtakeWhile s⟩
  unfold dropSemicolon
  split
  · next front hfront =>
    have hcut : trimEnd s = front.reverse ++ [';'] := by
      rw [← List.reverse_reverse (trimEnd s), hfront, List.reverse_cons]
    have hfront' : trimEnd front.reverse <+: front.reverse := ⟨_, trimEnd_append_rtakeWhile _⟩
    exact hfront'.trans ((List.prefix_append _ [';']).trans (hcut ▸ hs))
  · exact List.prefix_rfl

/-- What the last of several readings leaves, they leave. -/
theorem bind_leaves {α β : Type} {r : Reading α} {f : α → Reading β} {P : Text → Prop}
    (hf : ∀ a s b rest, (b, rest) ∈ f a s → P rest) (s : Text) (b : β) (rest : Text)
    (h : (b, rest) ∈ (r >>= f) s) : P rest := by
  obtain ⟨a, t, -, hb⟩ := mem_bind.mp h
  exact hf a t b rest hb

theorem head?_trimStart (s : Text) : (trimStart s).head?.any isBlank = false := by
  have hhead := List.head?_dropWhile_not isBlank s
  rw [trimStart]
  cases hs : (s.dropWhile isBlank).head? with
  | none => rfl
  | some c =>
    rw [hs] at hhead
    simpa using hhead

/-- The `ADD` of a column is read with the blanks behind it. -/
theorem head?_of_mem_columnAddition {x : QualifiedName × Text}
    (h : (x, rest) ∈ Heading.columnAddition s) : rest.head?.any isBlank = false := by
  refine bind_leaves (P := fun rest => rest.head?.any isBlank = false) ?_ s x rest h
  refine fun _ => bind_leaves fun _ => bind_leaves fun _ => bind_leaves fun _ => bind_leaves ?_
  refine fun _ => bind_leaves fun _ => bind_leaves fun _ => bind_leaves fun _ s x rest h => ?_
  obtain ⟨_, t, hblanks, h⟩ := mem_bind.mp h
  obtain ⟨-, rfl⟩ := mem_pure.mp h
  obtain ⟨_, v, -, -, rfl⟩ := mem_blanks.mp hblanks
  exact head?_trimStart v

/-- An identity clause has no line feed, and begins with no blank. -/
theorem identity?_spec (h : identity? definition = some clause) :
    '\n' ∉ clause ∧ clause.head?.any isBlank = false := by
  obtain ⟨found, hfound, rfl⟩ := Option.map_eq_some_iff.mp h
  obtain ⟨_, _, -, hread, -⟩ := search_eq_some hfound
  have hrest : found.rest.head?.any isBlank = false :=
    head?_of_mem_columnAddition (hread ▸ List.mem_cons_self)
  have hdrop : (dropSemicolon found.rest).head?.any isBlank = false := by
    obtain ⟨t, ht⟩ := dropSemicolon_isPrefix found.rest
    cases hs : dropSemicolon found.rest with
    | nil => rfl
    | cons d s =>
      rw [hs] at ht
      rw [← ht] at hrest
      exact hrest
  refine ⟨fun hm => not_mem_squeeze _ (mem_of_mem_tighten hm), ?_⟩
  rw [head?_tighten, head?_squeeze hdrop, hdrop]
  rw [head?_squeeze hdrop, hdrop]

end SchemaDump.Clause
