import SchemaDump.Proofs.Creations

/-! Letter case. Keywords are read in any case, and for all else that decides on a heading a letter
is as good as the other one. So texts that differ only in the case of ASCII letters are recognised
as the same, at the same place, under names that stand at the same places. -/
namespace SchemaDump

open Reading Identifier

namespace Text

variable {c k : Char} {s t u : Text}

/-- The text with its ASCII letters in lower case. -/
def lower (s : Text) : Text := s.map Char.toLower

/-- The texts differ in nothing but the case of ASCII letters. -/
def Recased (s t : Text) : Prop := lower t = lower s

/-- What holds of each character and itself, and of each ASCII letter in both cases, holds of each
character and its lower case. -/
theorem toLower_induct {P : Char → Char → Prop} (same : ∀ c, P c c)
    (letter : ∀ n < 91, 65 ≤ n → P (Char.ofNat n) (Char.ofNat n).toLower) (c : Char) :
    P c c.toLower := by
  by_cases hc : 65 ≤ c.toNat ∧ c.toNat < 91
  · have hletter := letter c.toNat hc.2 hc.1
    rwa [Char.ofNat_toNat] at hletter
  · have hlower : c.toLower = c := by
      refine dif_neg fun h => hc ?_
      have ha : 65 ≤ c.toNat := h.1
      have hz : c.toNat ≤ 90 := h.2
      omega
    rw [hlower]
    exact same c

theorem capital_toLower (c : Char) : capital c.toLower = capital c :=
  toLower_induct (P := fun c d => capital d = capital c) (fun _ => rfl) (by decide) c

theorem isBlank_toLower (c : Char) : isBlank c.toLower = isBlank c :=
  toLower_induct (P := fun c d => isBlank d = isBlank c) (fun _ => rfl) (by decide) c

theorem isWord_toLower (c : Char) : isWord c.toLower = isWord c :=
  toLower_induct (P := fun c d => isWord d = isWord c) (fun _ => rfl) (by decide) c

theorem isDigit_toLower (c : Char) : isDigit c.toLower = isDigit c :=
  toLower_induct (P := fun c d => isDigit d = isDigit c) (fun _ => rfl) (by decide) c

/-- The marks that headings look for are no letters. -/
theorem toLower_eq_iff (hk : k ∈ ['"', '.', '(', ')', ';', '$']) (c : Char) :
    c.toLower = k ↔ c = k := by
  refine toLower_induct (P := fun c d => d = k ↔ c = k) (fun _ => Iff.rfl) ?_ c
  have hall : ∀ n < 91, 65 ≤ n → ['"', '.', '(', ')', ';', '$'].all (fun k =>
      (Char.ofNat n).toLower = k ↔ Char.ofNat n = k) = true := by
    decide
  intro n hn ha
  exact of_decide_eq_true (List.all_eq_true.mp (hall n hn ha) k hk)

theorem lower_cons (c : Char) (s : Text) : lower (c :: s) = c.toLower :: lower s := rfl

theorem lower_drop (s : Text) (n : Nat) : lower (s.drop n) = (lower s).drop n := List.map_drop ..

theorem length_lower (s : Text) : (lower s).length = s.length := List.length_map ..

theorem Recased.refl (s : Text) : Recased s s := rfl

theorem Recased.symm (h : Recased s t) : Recased t s := Eq.symm h

theorem afterWord_lower (w s : Text) : afterWord w (lower s) = (afterWord w s).map lower := by
  induction w generalizing s with
  | nil => rfl
  | cons k w ih =>
    cases s with
    | nil => rfl
    | cons c s =>
      rw [lower_cons, afterWord, afterWord, capital_toLower, ih]
      split <;> rfl

theorem trimStart_lower (s : Text) : trimStart (lower s) = lower (trimStart s) := by
  rw [trimStart, lower, List.dropWhile_map]
  congr 1
  exact congrArg (List.dropWhile · s) (funext isBlank_toLower)

theorem trimEnd_lower (s : Text) : trimEnd (lower s) = lower (trimEnd s) := by
  have hstart := trimStart_lower s.reverse
  rw [lower, List.map_reverse] at hstart
  rw [trimEnd, dropEnd, lower, ← trimStart, hstart, lower, ← List.map_reverse]
  rfl

theorem splitLast_lower (hk : k ∈ ['"', '.', '(', ')', ';', '$']) (s : Text) :
    splitLast k (lower s) = (splitLast k s).map fun p => (lower p.1, lower p.2) := by
  induction s with
  | nil => rfl
  | cons c s ih =>
    rw [lower_cons, splitLast, splitLast, ih]
    cases splitLast k s with
    | some cut => rfl
    | none =>
      simp only [Option.map_none, toLower_eq_iff hk]
      split <;> rfl

end Text

open Text

namespace Identifier

variable {shorter : List Nat} {n : Nat} {s : Text}

theorem closings_lower (shorter : List Nat) (n : Nat) (s : Text) :
    closings shorter n (lower s) = closings shorter n s := by
  have hquote (c : Char) : c.toLower = '"' ↔ c = '"' := toLower_eq_iff (by decide) c
  induction shorter, n, s using closings.induct with
  | case1 shorter n s ih => exact ih
  | case2 shorter s hs | case3 shorter n s hs _ =>
    have hlower : (lower s).head? ≠ some '"' := by
      cases s with
      | nil => simp [lower]
      | cons c s => simpa [lower, hquote] using head?_ne_quote hs
    have hcons : lower ('"' :: s) = '"' :: lower s := rfl
    rw [hcons, closings_lone hlower, closings_lone (head?_ne_quote hs)]
  | case4 shorter n c s _ hc ih =>
    rw [lower_cons, closings_inner (mt (hquote c).mp hc), closings_inner hc, ih]
  | case5 shorter n => rfl

theorem startsBare_toLower (c : Char) : startsBare c.toLower = startsBare c := by
  rw [startsBare, startsBare, isWord_toLower, isDigit_toLower]

theorem continuesBare_toLower (c : Char) : continuesBare c.toLower = continuesBare c := by
  have hdollar := toLower_eq_iff (k := '$') (by decide) c
  simp only [continuesBare, isWord_toLower, hdollar]

/-- An identifier is as long in lower case. -/
theorem lengths_lower (s : Text) : lengths (lower s) = lengths s := by
  cases s with
  | nil => rfl
  | cons c s =>
    have hword : ((lower s).takeWhile continuesBare).length =
        (s.takeWhile continuesBare).length := by
      rw [lower, List.takeWhile_map, List.length_map]
      congr 2
      exact funext continuesBare_toLower
    rw [lower_cons, lengths, lengths, closings_lower, startsBare_toLower, hword]
    simp only [toLower_eq_iff (k := '"') (by decide)]

end Identifier

theorem Heading.endsList_lower (s : Text) : endsList (lower s) = endsList s := by
  rw [endsList, endsList, splitLast_lower (by decide)]
  cases splitLast ';' s with
  | none => rfl
  | some cut =>
    have hclosing (c : Char) : c.toLower = ')' ↔ c = ')' := toLower_eq_iff (by decide) c
    change decide ((trimEnd (lower cut.1)).getLast? = some ')') =
      decide ((trimEnd cut.1).getLast? = some ')')
    rw [trimEnd_lower, lower, List.getLast?_map]
    cases (trimEnd cut.1).getLast? <;> simp [hclosing]

namespace Reading

variable {α β μ ν : Type} {l : Text} {e : μ → Text → α} {e' : ν → Text → β}
  {r t : Text → Reading α} {f : Text → α → Reading β}

/-- The texts that are `l` in lower case are read alike: at each place the same readings succeed and
end at the same places, with values that `e` finds in the text by the same marks. -/
def ReadsAlike (l : Text) (e : μ → Text → α) (r : Text → Reading α) : Prop :=
  ∀ n, ∃ found : List (μ × Nat), ∀ s, lower s = l →
    r s (s.drop n) = found.map fun p => (e p.1 s, s.drop p.2)

theorem readsAlike_pure {v : Text → α} (m : μ) (h : ∀ s, v s = e m s) :
    ReadsAlike l e fun s => pure (v s) :=
  fun n => ⟨[(m, n)], fun s _ => congrArg (fun a => [(a, s.drop n)]) (h s)⟩

theorem ReadsAlike.bind (hr : ReadsAlike l e r)
    (hf : ∀ m, ReadsAlike l e' fun s => f s (e m s)) :
    ReadsAlike l e' fun s => r s >>= f s := by
  intro n
  obtain ⟨found, hfound⟩ := hr n
  choose more hmore using fun p : μ × Nat => hf p.1 p.2
  refine ⟨found.flatMap more, fun s hs => ?_⟩
  change (r s >>= f s) (s.drop n) = _
  rw [bind_apply, hfound s hs, List.flatMap_map, List.map_flatMap]
  exact congrArg (found.flatMap ·) (funext fun p => hmore p s hs)

theorem ReadsAlike.orElse (hr : ReadsAlike l e r) (ht : ReadsAlike l e t) :
    ReadsAlike l e fun s => r s <|> t s := by
  intro n
  obtain ⟨found, hfound⟩ := hr n
  obtain ⟨other, hother⟩ := ht n
  refine ⟨found ++ other, fun s hs => ?_⟩
  change (r s <|> t s) (s.drop n) = _
  rw [orElse_apply, hfound s hs, hother s hs, List.map_append]

theorem readsAlike_optional (hr : ReadsAlike l e r) :
    ReadsAlike l (fun (m : Option μ) s => m.map (e · s)) fun s => optional (r s) := by
  refine ReadsAlike.orElse (hr.bind fun m => ?_) ?_
  · exact readsAlike_pure (some m) fun _ => rfl
  · exact readsAlike_pure none fun _ => rfl

/-- Words that may be missing before what is read. -/
theorem readsAlike_optional_bind {r : Reading Unit} {f : Text → Reading β}
    (hr : ReadsAlike l (fun (u : Unit) _ => u) fun _ => r) (hf : ReadsAlike l e' f) :
    ReadsAlike l e' fun s => optional r >>= fun _ => f s :=
  (readsAlike_optional hr).bind fun _ => hf

/-- A reading that leaves an end of the text, and the same end in lower case. -/
theorem readsAlike_of_lower {r : Reading α}
    (hlower : ∀ s, r (lower s) = (r s).map fun p => (p.1, lower p.2))
    (hsuffix : ∀ s, ∀ p ∈ r s, p.2 <:+ s) :
    ReadsAlike l (fun a _ => a) fun _ => r := by
  intro n
  refine ⟨(r (l.drop n)).map fun p => (p.1, l.length - p.2.length), fun s hs => ?_⟩
  subst hs
  rw [← lower_drop, hlower, List.map_map, List.map_map, eq_comm]
  refine (List.map_congr_left fun p hp => ?_).trans (List.map_id _)
  have hdrop := List.suffix_iff_eq_drop.mp ((hsuffix _ p hp).trans (List.drop_suffix n s))
  simp only [Function.comp_apply, length_lower, ← hdrop, id_eq]

theorem readsAlike_word (w : String) : ReadsAlike l (fun u _ => u) fun _ => word w := by
  refine readsAlike_of_lower (fun s => ?_) fun s p hp => (isLocal_word (v := []) w).isSuffix hp
  rw [word, word, afterWord_lower]
  cases afterWord w.toList s <;> rfl

theorem readsAlike_blanks : ReadsAlike l (fun u _ => u) fun _ => blanks := by
  refine readsAlike_of_lower (fun s => ?_) fun s p hp => (isLocal_blanks (v := [])).isSuffix hp
  cases s with
  | nil => rfl
  | cons c s =>
    rw [lower_cons, blanks, blanks, isBlank_toLower, trimStart_lower]
    split <;> rfl

theorem readsAlike_gap : ReadsAlike l (fun u _ => u) fun _ => gap := by
  refine readsAlike_of_lower (fun s => ?_) fun s p hp => (isLocal_gap (v := [])).isSuffix hp
  rw [gap, gap, trimStart_lower]
  rfl

theorem readsAlike_char {c : Char} (hc : c ∈ ['"', '.', '(', ')', ';', '$']) :
    ReadsAlike l (fun u _ => u) fun _ => char c := by
  refine readsAlike_of_lower (fun s => ?_) fun s p hp => (isLocal_char (v := []) c).isSuffix hp
  cases s with
  | nil => rfl
  | cons d s =>
    rw [lower_cons, char, char]
    simp only [toLower_eq_iff hc]
    split <;> rfl

end Reading

/-- A place in a text: where it starts, and how long it is. -/
structure Place where
  start : Nat
  length : Nat

/-- The text at a place. -/
def Place.text (p : Place) (s : Text) : Text := (s.drop p.start).take p.length

namespace QualifiedName

/-- Where the two names stand. -/
structure Places where
  schema : Option Place
  name : Place

/-- The names that stand there. -/
def Places.names (p : Places) (s : Text) : QualifiedName :=
  ⟨p.schema.map (·.text s), p.name.text s⟩

end QualifiedName

namespace Heading

/-- Where the names of a heading stand. Without a place for the schema this is the public one. A
sequence has a schema of its own, with or without a place. -/
structure Places where
  schema : Option Place
  name : Option Place := none
  sequence : Option QualifiedName.Places := none
  table : Option Place := none
  column : Option Place := none

/-- The heading with the names that stand there. -/
def Places.heading (p : Places) (s : Text) : Heading where
  schema := (p.schema.map (·.text s)).getD QualifiedName.publicSchema
  name := match p.sequence with
    | some q => some (qualify (q.names s).schemaOrPublic (q.names s).name)
    | none => p.name.map (·.text s)
  table := p.table.map (·.text s)
  column := p.column.map (·.text s)

end Heading

variable {l : Text}

theorem readsAlike_identifierBefore {p : Text → Bool} (hp : ∀ s, p (lower s) = p s) :
    ReadsAlike l Place.text fun _ => identifierBefore p := by
  intro n
  refine ⟨((lengths (l.drop n)).find? fun k => p ((l.drop n).drop k)).toList.map
    fun k => (⟨n, k⟩, n + k), fun s hs => ?_⟩
  subst hs
  have hrest : (fun k => p (((lower s).drop n).drop k)) = fun k => p ((s.drop n).drop k) := by
    funext k
    rw [← lower_drop, ← lower_drop, hp]
  change ((lengths (s.drop n)).find? _).toList.map _ = _
  rw [hrest, ← lower_drop, lengths_lower, List.map_map]
  refine List.map_congr_left fun k _ => ?_
  rw [Function.comp_apply, List.drop_drop]
  rfl

theorem readsAlike_identifier : ReadsAlike l Place.text fun _ => identifier :=
  readsAlike_identifierBefore fun _ => rfl

theorem readsAlike_qualifiedNameBefore {p : Text → Bool} (hp : ∀ s, p (lower s) = p s) :
    ReadsAlike l QualifiedName.Places.names fun _ => qualifiedNameBefore p := by
  have hname := readsAlike_identifierBefore (l := l) hp
  refine ReadsAlike.orElse (readsAlike_identifier.bind fun schema => ?_) ?_
  · refine (readsAlike_char (by decide)).bind fun _ => hname.bind fun name => ?_
    exact readsAlike_pure ⟨some schema, name⟩ fun _ => rfl
  · exact hname.bind fun name => readsAlike_pure ⟨none, name⟩ fun _ => rfl

theorem readsAlike_qualifiedName :
    ReadsAlike l QualifiedName.Places.names fun _ => qualifiedName :=
  readsAlike_qualifiedNameBefore fun _ => rfl

namespace Heading

theorem readsAlike_maybe (w : String) : ReadsAlike l (fun u _ => u) fun _ => maybe w := by
  refine readsAlike_optional_bind ?_ (readsAlike_pure () fun _ => rfl)
  exact (readsAlike_word w).bind fun _ => readsAlike_blanks

theorem readsAlike_maybeReplacing :
    ReadsAlike l (fun u _ => u) fun _ => maybeReplacing := by
  refine readsAlike_optional_bind ?_ (readsAlike_pure () fun _ => rfl)
  refine (readsAlike_word "OR").bind fun _ => readsAlike_blanks.bind fun _ => ?_
  exact (readsAlike_word "REPLACE").bind fun _ => readsAlike_blanks

theorem readsAlike_tableWords : ReadsAlike l (fun u _ => u) fun _ => tableWords := by
  refine (readsAlike_maybe "UNLOGGED").bind fun _ => (readsAlike_word "TABLE").bind fun _ => ?_
  refine readsAlike_optional_bind ?_ (readsAlike_pure () fun _ => rfl)
  refine readsAlike_blanks.bind fun _ => (readsAlike_word "IF").bind fun _ => ?_
  refine readsAlike_blanks.bind fun _ => (readsAlike_word "NOT").bind fun _ => ?_
  exact readsAlike_blanks.bind fun _ => readsAlike_word "EXISTS"

theorem readsAlike_viewWords : ReadsAlike l (fun u _ => u) fun _ => viewWords := by
  refine readsAlike_maybeReplacing.bind fun _ => ?_
  refine readsAlike_optional_bind ?_ (readsAlike_word "VIEW")
  have heither := (readsAlike_word (l := l) "RECURSIVE").orElse (readsAlike_word "MATERIALIZED")
  exact heither.bind fun _ => readsAlike_blanks

theorem readsAlike_creation {what : Reading Unit}
    (hwhat : ReadsAlike l (fun u _ => u) fun _ => what) :
    ReadsAlike l Places.heading fun _ => creation what := by
  refine (readsAlike_word "CREATE").bind fun _ => readsAlike_blanks.bind fun _ => ?_
  refine hwhat.bind fun _ => readsAlike_blanks.bind fun _ => ?_
  refine readsAlike_qualifiedName.bind fun q => ?_
  exact readsAlike_pure { schema := q.schema, name := q.name } fun _ => rfl

theorem readsAlike_ofSchema : ReadsAlike l Places.heading fun _ => ofSchema := by
  refine (readsAlike_word "CREATE").bind fun _ => readsAlike_blanks.bind fun _ => ?_
  refine (readsAlike_word "SCHEMA").bind fun _ => readsAlike_blanks.bind fun _ => ?_
  refine readsAlike_identifier.bind fun name => ?_
  exact readsAlike_pure { schema := some name, name := some name } fun _ => rfl

theorem readsAlike_ofExtension : ReadsAlike l Places.heading fun _ => ofExtension := by
  refine (readsAlike_word "CREATE").bind fun _ => readsAlike_blanks.bind fun _ => ?_
  refine (readsAlike_word "EXTENSION").bind fun _ => readsAlike_blanks.bind fun _ => ?_
  refine readsAlike_optional_bind ?_ ?_
  · refine (readsAlike_word "IF").bind fun _ => readsAlike_blanks.bind fun _ => ?_
    refine (readsAlike_word "NOT").bind fun _ => readsAlike_blanks.bind fun _ => ?_
    exact (readsAlike_word "EXISTS").bind fun _ => readsAlike_blanks
  · refine readsAlike_identifier.bind fun name => ?_
    refine ReadsAlike.bind (readsAlike_optional (e := Place.text) ?_) fun schema => ?_
    · refine readsAlike_optional_bind ?_ ?_
      · exact readsAlike_blanks.bind fun _ => readsAlike_word "WITH"
      · refine readsAlike_optional_bind ?_ ?_
        · exact readsAlike_blanks.bind fun _ => readsAlike_word "SCHEMA"
        · exact readsAlike_blanks.bind fun _ => readsAlike_identifier
    · exact readsAlike_pure { schema := schema, name := some name } fun _ => rfl

theorem readsAlike_alteredTable :
    ReadsAlike l QualifiedName.Places.names fun _ => alteredTable := by
  refine (readsAlike_word "ALTER").bind fun _ => readsAlike_blanks.bind fun _ => ?_
  refine (readsAlike_word "TABLE").bind fun _ => readsAlike_blanks.bind fun _ => ?_
  exact (readsAlike_maybe "ONLY").bind fun _ => readsAlike_qualifiedName

theorem readsAlike_columnAddition :
    ReadsAlike l (fun (m : QualifiedName.Places × Place) s => (m.1.names s, m.2.text s))
      fun _ => columnAddition := by
  refine readsAlike_alteredTable.bind fun table => readsAlike_blanks.bind fun _ => ?_
  refine (readsAlike_word "ALTER").bind fun _ => readsAlike_blanks.bind fun _ => ?_
  refine (readsAlike_maybe "COLUMN").bind fun _ => readsAlike_identifier.bind fun column => ?_
  refine readsAlike_blanks.bind fun _ => (readsAlike_word "ADD").bind fun _ => ?_
  refine readsAlike_blanks.bind fun _ => ?_
  exact readsAlike_pure (table, column) fun _ => rfl

theorem readsAlike_ofSequence : ReadsAlike l Places.heading fun _ => ofSequence := by
  refine readsAlike_columnAddition.bind fun m => ?_
  refine (readsAlike_word "GENERATED").bind fun _ => readsAlike_blanks.bind fun _ => ?_
  refine ReadsAlike.bind (e := fun (u : Unit) _ => u) ?_ fun _ => ?_
  · refine (readsAlike_word "ALWAYS").orElse ((readsAlike_word "BY").bind fun _ => ?_)
    exact readsAlike_blanks.bind fun _ => readsAlike_word "DEFAULT"
  refine readsAlike_blanks.bind fun _ => (readsAlike_word "AS").bind fun _ => ?_
  refine readsAlike_blanks.bind fun _ => (readsAlike_word "IDENTITY").bind fun _ => ?_
  refine readsAlike_blanks.bind fun _ => (readsAlike_char (by decide)).bind fun _ => ?_
  refine readsAlike_gap.bind fun _ => (readsAlike_word "SEQUENCE").bind fun _ => ?_
  refine readsAlike_blanks.bind fun _ => (readsAlike_word "NAME").bind fun _ => ?_
  refine readsAlike_blanks.bind fun _ => ?_
  refine (readsAlike_qualifiedNameBefore endsList_lower).bind fun sequence => ?_
  exact readsAlike_pure
    { schema := m.1.schema, sequence := some sequence, table := m.1.name, column := some m.2 }
    fun _ => rfl

theorem readsAlike_ofConstraint : ReadsAlike l Places.heading fun _ => ofConstraint := by
  refine readsAlike_alteredTable.bind fun table => readsAlike_blanks.bind fun _ => ?_
  refine (readsAlike_word "ADD").bind fun _ => readsAlike_blanks.bind fun _ => ?_
  refine (readsAlike_word "CONSTRAINT").bind fun _ => readsAlike_blanks.bind fun _ => ?_
  refine readsAlike_identifier.bind fun name => ?_
  exact readsAlike_pure { schema := table.schema, name := some name, table := some table.name }
    fun _ => rfl

theorem readsAlike_ofIndex : ReadsAlike l Places.heading fun _ => ofIndex := by
  refine (readsAlike_word "CREATE").bind fun _ => readsAlike_blanks.bind fun _ => ?_
  refine (readsAlike_maybe "UNIQUE").bind fun _ => (readsAlike_word "INDEX").bind fun _ => ?_
  refine readsAlike_blanks.bind fun _ => ?_
  refine ReadsAlike.bind (readsAlike_optional (e := Place.text) ?_) fun name => ?_
  · refine readsAlike_identifier.bind fun name => readsAlike_blanks.bind fun _ => ?_
    exact readsAlike_pure name fun _ => rfl
  · refine (readsAlike_word "ON").bind fun _ => readsAlike_blanks.bind fun _ => ?_
    refine (readsAlike_maybe "ONLY").bind fun _ => readsAlike_qualifiedName.bind fun table => ?_
    exact readsAlike_pure { schema := table.schema, name := name, table := some table.name }
      fun _ => rfl

end Heading

theorem Kind.readsAlike_heading (k : Kind) :
    ReadsAlike l Heading.Places.heading fun _ => k.heading := by
  cases k with
  | schema => exact Heading.readsAlike_ofSchema
  | extension => exact Heading.readsAlike_ofExtension
  | type => exact Heading.readsAlike_creation (readsAlike_word "TYPE")
  | domain => exact Heading.readsAlike_creation (readsAlike_word "DOMAIN")
  | function =>
    refine Heading.readsAlike_creation (Heading.readsAlike_maybeReplacing.bind fun _ => ?_)
    exact readsAlike_word "FUNCTION"
  | procedure =>
    refine Heading.readsAlike_creation (Heading.readsAlike_maybeReplacing.bind fun _ => ?_)
    exact readsAlike_word "PROCEDURE"
  | table => exact Heading.readsAlike_creation Heading.readsAlike_tableWords
  | view => exact Heading.readsAlike_creation Heading.readsAlike_viewWords
  | sequence => exact Heading.readsAlike_ofSequence
  | constraint => exact Heading.readsAlike_ofConstraint
  | index => exact Heading.readsAlike_ofIndex

/-- Behind `n` characters, texts that are the same in lower case have the same headings. -/
theorem Kind.exists_headings (k : Kind) (l : Text) (n : Nat) :
    ∃ found : List (Heading.Places × Nat), ∀ s, lower s = l →
      k.heading (s.drop n) = found.map fun p => (p.1.heading s, s.drop p.2) :=
  k.readsAlike_heading n

namespace Classified

variable {s t : Text} {c : Classified}

/-- What decides on a text decides on it in any letter case, by marks that are the same for all. -/
theorem Decides.exists_places (h : Decides s c) : ∃ places : Heading.Places, ∀ t, Recased s t →
    Decides t
      { kind := c.kind
        heading := places.heading t
        definition := t.drop c.residual.length
        residual := t.take c.residual.length } := by
  have hnil : ∀ k : Kind, ∀ n, k.heading (s.drop n) = [] → ∀ t, Recased s t →
      k.heading (t.drop n) = [] := by
    intro k n hn t ht
    obtain ⟨found, hfound⟩ := k.exists_headings (lower s) n
    have hs := hfound s rfl
    rw [hn, eq_comm, List.map_eq_nil_iff] at hs
    exact (hfound t ht).trans (by rw [hs, List.map_nil])
  have hdefinition : c.definition = s.drop c.residual.length := by
    rw [← h.cut, List.drop_left]
  obtain ⟨rest, more, hreads⟩ := h.reads
  obtain ⟨earlier, later, hkinds, hearlier⟩ := h.firstKind
  obtain ⟨found, hfound⟩ := c.kind.exists_headings (lower s) c.residual.length
  obtain ⟨⟨places, k⟩, others, rfl⟩ : ∃ m others, found = m :: others := by
    have hs := hfound s rfl
    rw [← hdefinition, hreads] at hs
    exact List.exists_cons_of_ne_nil (by rintro rfl; cases hs)
  refine ⟨places, fun t ht => ⟨List.take_append_drop _ t, ?_, ?_, earlier, later, hkinds, ?_⟩⟩
  · exact ⟨t.drop k, _, hfound t ht⟩
  · intro x y hxy hlt
    have hx : x.length < c.residual.length := by
      rw [List.length_take] at hlt
      omega
    have hy : y = t.drop x.length := by rw [hxy, List.drop_left]
    rw [hy]
    refine hnil c.kind _ (h.firstPlace (s.take x.length) _ ?_ ?_) t ht
    · exact (List.take_append_drop _ s).symm
    · rw [List.length_take]
      omega
  · intro k hk u hu
    rw [List.suffix_iff_eq_drop.mp hu]
    exact hnil k _ (hearlier k hk _ (List.drop_suffix _ s)) t ht

/-- Letter case decides nothing. A text in other letter case is recognised if the text is, as the
same kind and from the same place on, and each name that its heading gives is what stands in it at
the place of that name. -/
theorem ofStatement?_recased (s : Text) :
    (∀ t, Recased s t → (ofStatement? t = none ↔ ofStatement? s = none)) ∧
      ∀ c, ofStatement? s = some c → ∃ places : Heading.Places, ∀ t, Recased s t →
        ofStatement? t = some
          { kind := c.kind
            heading := places.heading t
            definition := t.drop c.residual.length
            residual := t.take c.residual.length } := by
  have hsome : ∀ s c, ofStatement? s = some c → ∃ places : Heading.Places, ∀ t, Recased s t →
      ofStatement? t = some
        { kind := c.kind
          heading := places.heading t
          definition := t.drop c.residual.length
          residual := t.take c.residual.length } := by
    intro s c hc
    obtain ⟨places, hplaces⟩ := (decides_of_ofStatement? hc).exists_places
    exact ⟨places, fun t ht => ofStatement?_of_decides (hplaces t ht)⟩
  have hnone : ∀ s t, Recased s t → ofStatement? s = none → ofStatement? t = none := by
    intro s t hst hs
    cases ht : ofStatement? t with
    | none => rfl
    | some c =>
      obtain ⟨places, hplaces⟩ := hsome t c ht
      rw [hplaces s hst.symm] at hs
      cases hs
  exact ⟨fun t ht => ⟨hnone t s ht.symm, hnone s t ht⟩, hsome s⟩

theorem ofStatement?_recased_index :
    let s := "/* É */ create index \"On\" on only a.\"b.C\" (x)".toList
    let t := "/* É */ Create INDEX \"oN\" ON Only A.\"B.c\" (X)".toList
    let c : Classified :=
      { kind := .index
        heading := { schema := "a".toList, name := some "\"On\"".toList,
                     table := some "\"b.C\"".toList }
        definition := "create index \"On\" on only a.\"b.C\" (x)".toList
        residual := "/* É */ ".toList }
    ofStatement? s = some c ∧ Recased s t ∧ (ofStatement? t = none ↔ ofStatement? s = none) ∧
      ∃ places : Heading.Places, places.heading s = c.heading ∧ ofStatement? t = some
        { kind := .index
          heading := places.heading t
          definition := "Create INDEX \"oN\" ON Only A.\"B.c\" (X)".toList
          residual := "/* É */ ".toList } := by
  intro s t c
  have hs : ofStatement? s = some c := by decide +kernel
  have ht : Recased s t := by rw [Recased]; decide
  obtain ⟨hnone, hsome⟩ := ofStatement?_recased s
  obtain ⟨places, hplaces⟩ := hsome c hs
  have hdefinition : t.drop c.residual.length =
      "Create INDEX \"oN\" ON Only A.\"B.c\" (X)".toList := by
    decide +kernel
  have hresidual : t.take c.residual.length = "/* É */ ".toList := by decide +kernel
  refine ⟨hs, ht, hnone t ht, places, ?_, ?_⟩
  · have hself := hplaces s (Recased.refl s)
    rw [hs, Option.some.injEq] at hself
    exact (congrArg Classified.heading hself).symm
  · have hother := hplaces t ht
    rw [hdefinition, hresidual] at hother
    exact hother

end Classified
end SchemaDump
