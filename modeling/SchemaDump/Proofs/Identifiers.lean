import SchemaDump.Proofs.Locality

/-! Identifiers as they are written: bare words, and names in double quotes whose own quotes are
doubled. An identifier ends where the text goes on with anything else, so it is read as it was
written, and a name with its schema can be taken apart in one way only. -/
namespace SchemaDump

namespace Text

variable {c : Char}

/-- The blanks by their code points. -/
def blankPoints : List Nat :=
  [9, 10, 11, 12, 13, 28, 29, 30, 31, 32, 0x85, 0xA0, 0x1680, 0x2000, 0x2001, 0x2002, 0x2003,
    0x2004, 0x2005, 0x2006, 0x2007, 0x2008, 0x2009, 0x200A, 0x2028, 0x2029, 0x202F, 0x205F, 0x3000]

theorem mem_blankPoints (h : isBlank c = true) : c.toNat ∈ blankPoints := by
  simp only [isBlank, Bool.or_eq_true, Bool.and_eq_true, decide_eq_true_eq] at h
  simp only [blankPoints, List.mem_cons, List.not_mem_nil, or_false]
  omega

theorem isWord_of_isBlank (h : isBlank c = true) : isWord c = false := by
  have hall : ∀ n ∈ blankPoints, isWord (Char.ofNat n) = false := by decide +kernel
  have hc := hall c.toNat (mem_blankPoints h)
  rwa [Char.ofNat_toNat] at hc

end Text

namespace Identifier

/-- Every double quote written twice. -/
def doubled (s : Text) : Text := s.flatMap fun c => if c = '"' then ['"', '"'] else [c]

/-- A word that starts with no digit, or any text in double quotes that is not empty. -/
inductive WellFormed : Text → Prop
  | bare {c : Char} {s : Text} : startsBare c = true → (∀ d ∈ s, continuesBare d = true) →
      WellFormed (c :: s)
  | quoted {s : Text} : s ≠ [] → WellFormed ('"' :: (doubled s ++ ['"']))

/-- No identifier goes on into `rest`. -/
def Ends (rest : Text) : Prop := ∀ c ∈ rest.head?, continuesBare c = false ∧ c ≠ '"'

variable {shorter : List Nat} {n k : Nat} {c : Char} {s t rest : Text}

@[simp] theorem doubled_nil : doubled [] = [] := rfl

@[simp] theorem doubled_quote (s : Text) : doubled ('"' :: s) = '"' :: '"' :: doubled s := rfl

theorem doubled_cons (hc : c ≠ '"') (s : Text) : doubled (c :: s) = c :: doubled s := by
  simp [doubled, hc]

theorem doubled_append (s t : Text) : doubled (s ++ t) = doubled s ++ doubled t :=
  List.flatMap_append

theorem Ends.head?_ne_quote (h : Ends rest) : rest.head? ≠ some '"' :=
  fun hrest => (h '"' hrest).2 rfl

theorem startsBare_ne_quote (h : startsBare c = true) : c ≠ '"' := by
  rintro rfl
  revert h
  decide

theorem continuesBare_of_isBlank (h : Text.isBlank c = true) : continuesBare c = false := by
  have hdollar : c ≠ '$' := by
    rintro rfl
    revert h
    decide
  simp [continuesBare, Text.isWord_of_isBlank h, hdollar]

theorem WellFormed.ne_nil (h : WellFormed t) : t ≠ [] := by
  cases h <;> exact List.cons_ne_nil _ _

/-- No identifier begins with a blank. -/
theorem WellFormed.head?_isBlank (h : WellFormed t) : t.head?.any Text.isBlank = false := by
  cases h with
  | @bare c s hc hs =>
    have hword : Text.isWord c = true := (Bool.and_eq_true_iff.mp hc).1
    have hblank : Text.isBlank c ≠ true := by
      intro hb
      rw [Text.isWord_of_isBlank hb] at hword
      cases hword
    simpa using hblank
  | quoted hs => rfl

/-- A name in quotes is read up to its closing quote before anything shorter. -/
theorem closings_doubled (hrest : rest.head? ≠ some '"') (shorter : List Nat) (hn : n ≠ 0)
    (h : n = 1 → s ≠ []) : ∃ more, closings shorter n (doubled s ++ '"' :: rest) =
      (n + (doubled s).length + 1) :: more := by
  induction s generalizing shorter n with
  | nil =>
    have hone : n ≠ 1 := fun hone => h hone rfl
    exact ⟨shorter, by rw [doubled_nil, List.nil_append, closings_lone hrest, if_neg hone]; rfl⟩
  | cons c s ih =>
    by_cases hc : c = '"'
    · subst hc
      have hn : n + 2 ≠ 0 := by omega
      obtain ⟨more, hmore⟩ := ih (if n = 1 then shorter else (n + 1) :: shorter) hn (by omega)
      refine ⟨more, ?_⟩
      rw [doubled_quote, List.cons_append, List.cons_append, closings, hmore]
      simp only [List.length_cons]
      congr 1
      omega
    · obtain ⟨more, hmore⟩ := ih shorter n.succ_ne_zero (by omega)
      refine ⟨more, ?_⟩
      rw [doubled_cons hc, List.cons_append, closings_inner hc, hmore, List.length_cons]
      congr 1
      omega

/-- An identifier is read as it is written. -/
theorem head?_lengths_append (h : WellFormed t) (hrest : Ends rest) :
    (lengths (t ++ rest)).head? = some t.length := by
  cases h with
  | @bare c s hc hs =>
    have hstop : rest.takeWhile continuesBare = [] := by
      cases rest with
      | nil => rfl
      | cons d rest => simp [(hrest d rfl).1]
    rw [List.cons_append, lengths, if_neg (startsBare_ne_quote hc), if_pos hc,
      List.takeWhile_append_of_pos hs, hstop, List.append_nil, List.length_cons, Nat.add_comm]
    rfl
  | @quoted s hs =>
    obtain ⟨more, hmore⟩ := closings_doubled hrest.head?_ne_quote [] Nat.one_ne_zero fun _ => hs
    rw [List.cons_append, List.append_assoc, List.singleton_append, lengths, if_pos rfl, hmore]
    simp [Nat.add_comm]

/-- What is taken for a name after the quote and `u`, which have been read, is well formed. -/
theorem wellFormed_of_mem_closings {u : Text} (hn : n = (doubled u).length + 1)
    (hk : k ∈ closings shorter n s) :
    k ∈ shorter ∨ WellFormed (('"' :: (doubled u ++ s)).take k) := by
  -- a closing quote after `n` characters makes a name if there is anything between the quotes
  have hclose {n k : Nat} {u s : Text} {shorter : List Nat} (hn : n = (doubled u).length + 1)
      (hk : k ∈ if n = 1 then shorter else (n + 1) :: shorter) :
      k ∈ shorter ∨ WellFormed (('"' :: (doubled u ++ '"' :: s)).take k) := by
    split at hk
    · exact Or.inl hk
    · next hone =>
      obtain rfl | hk := List.mem_cons.mp hk
      · right
        have hu : u ≠ [] := by
          rintro rfl
          exact hone hn
        have htake : ('"' :: (doubled u ++ '"' :: s)).take (n + 1) =
            '"' :: (doubled u ++ ['"']) := by
          rw [List.take_succ_cons, hn, List.take_length_add_append]
          rfl
        rw [htake]
        exact .quoted hu
      · exact Or.inl hk
  induction shorter, n, s using closings.induct generalizing u with
  | case1 shorter n s ih =>
    rw [closings] at hk
    have hlen : n + 2 = (doubled (u ++ ['"'])).length + 1 := by
      simp [doubled_append, hn]
    have htext : doubled (u ++ ['"']) ++ s = doubled u ++ '"' :: '"' :: s := by
      simp [doubled_append]
    obtain hk | hk := ih hlen hk
    · exact hclose hn hk
    · exact Or.inr (htext ▸ hk)
  | case2 shorter s hs =>
    rw [closings_lone (head?_ne_quote hs)] at hk
    exact hclose hn hk
  | case3 shorter n s hs _ =>
    rw [closings_lone (head?_ne_quote hs)] at hk
    exact hclose hn hk
  | case4 shorter n c s _ hc ih =>
    rw [closings_inner hc] at hk
    have hlen : n + 1 = (doubled (u ++ [c])).length + 1 := by
      simp [doubled_append, doubled_cons hc, hn]
    have htext : doubled (u ++ [c]) ++ s = doubled u ++ c :: s := by
      simp [doubled_append, doubled_cons hc]
    exact htext ▸ ih hlen hk
  | case5 shorter n => exact Or.inl hk

/-- Only identifiers are read. -/
theorem wellFormed_take (h : n ∈ lengths s) : WellFormed (s.take n) := by
  cases s with
  | nil => simp [lengths] at h
  | cons c s =>
    rw [lengths] at h
    split_ifs at h with hquote hstart
    · subst hquote
      exact (wellFormed_of_mem_closings (u := []) rfl h).resolve_left (List.not_mem_nil)
    · have htake : s.take (s.takeWhile continuesBare).length = s.takeWhile continuesBare :=
        (List.prefix_iff_eq_take.mp (List.takeWhile_prefix _)).symm
      rw [List.mem_singleton.mp h, Nat.add_comm, List.take_succ_cons, htake]
      exact .bare hstart fun d hd => List.mem_takeWhile_imp hd
    · simp at h

end Identifier

open Reading Identifier

variable {s t s' t' n rest : Text} {p : Text → Bool}

theorem identifierBefore_append (h : WellFormed t) (hrest : Ends rest) (hp : p rest = true) :
    identifierBefore p (t ++ rest) = [(t, rest)] := by
  obtain ⟨more, hmore⟩ := List.head?_eq_some_iff.mp (head?_lengths_append h hrest)
  simp [identifierBefore, hmore, hp]

theorem identifier_append (h : WellFormed t) (hrest : Ends rest) :
    identifier (t ++ rest) = [(t, rest)] :=
  identifierBefore_append h hrest rfl

theorem wellFormed_of_mem_identifierBefore (h : (n, rest) ∈ identifierBefore p s) :
    WellFormed n := by
  simp only [identifierBefore, List.mem_map, Option.mem_toList, Prod.mk.injEq] at h
  obtain ⟨k, hk, rfl, -⟩ := h
  exact wellFormed_take (List.mem_of_find?_eq_some hk)

theorem eq_append_of_mem_identifier (h : (n, rest) ∈ identifier s) :
    s = n ++ rest ∧ WellFormed n := by
  refine ⟨?_, wellFormed_of_mem_identifierBefore h⟩
  simp only [identifier, identifierBefore, List.mem_map, Option.mem_toList, Prod.mk.injEq] at h
  obtain ⟨k, -, rfl, rfl⟩ := h
  exact (List.take_append_drop k s).symm

/-- The text of a name with its schema has one schema and one name. -/
theorem qualify_inj (hs : WellFormed s) (hs' : WellFormed s') :
    qualify s t = qualify s' t' ↔ s = s' ∧ t = t' := by
  refine ⟨fun h => ?_, fun ⟨hs, ht⟩ => by rw [hs, ht]⟩
  have hdot (u : Text) : Ends ('.' :: u) := by
    intro c hc
    cases hc
    decide
  have hlen := head?_lengths_append hs (hdot t)
  have hlen' := head?_lengths_append hs' (hdot t')
  rw [← qualify] at hlen hlen'
  rw [h, hlen', Option.some.injEq] at hlen
  obtain ⟨rfl, ht⟩ := List.append_inj h hlen.symm
  exact ⟨rfl, (List.cons.inj ht).2⟩

end SchemaDump
