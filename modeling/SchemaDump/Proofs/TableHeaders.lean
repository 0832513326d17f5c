import SchemaDump.Proofs.Attachables

/-! Headers of table definitions, up to the opening parenthesis. One is read where one is written and
nowhere else, and the first of a text stays the first if text without quotes comes in behind it. -/
namespace SchemaDump

open Text Identifier Reading

variable {s t u v w x y rest : Text} {c : Char}

namespace Identifier

theorem continuesBare_of_startsBare (h : startsBare c = true) : continuesBare c = true := by
  simp [continuesBare, (Bool.and_eq_true_iff.mp h).1]

/-- A character that is no quote stands in a doubled text as it stood before. -/
theorem exists_of_doubled_eq_append (hc : c ≠ '"') (h : doubled s = x ++ c :: y) :
    ∃ s₁ s₂, x = doubled s₁ ∧ y = doubled s₂ := by
  induction s generalizing x with
  | nil => simp at h
  | cons d s ih =>
    by_cases hd : d = '"'
    · subst hd
      rw [doubled_quote] at h
      match x, h with
      | [], h => exact (hc (List.cons.inj h).1.symm).elim
      | [_], h => exact (hc (List.cons.inj (List.cons.inj h).2).1.symm).elim
      | a :: b :: x, h =>
        simp only [List.cons_append, List.cons.injEq] at h
        obtain ⟨rfl, rfl, h⟩ := h
        obtain ⟨s₁, s₂, rfl, hy⟩ := ih h
        exact ⟨'"' :: s₁, s₂, rfl, hy⟩
    · rw [doubled_cons hd] at h
      cases x with
      | nil =>
        rw [List.nil_append, List.cons.injEq] at h
        exact ⟨[], s, rfl, h.2.symm⟩
      | cons a x =>
        rw [List.cons_append, List.cons.injEq] at h
        obtain ⟨rfl, h⟩ := h
        obtain ⟨s₁, s₂, rfl, hy⟩ := ih h
        exact ⟨d :: s₁, s₂, (doubled_cons hd s₁).symm, hy⟩

theorem exists_of_append_eq_doubled (hquote : '"' ∉ v) (h : v ++ y = doubled s) :
    ∃ s', y = doubled s' := by
  induction v generalizing s with
  | nil => exact ⟨s, h⟩
  | cons c v ih =>
    obtain ⟨hc, hv⟩ := not_or.mp fun hm => hquote (List.mem_cons.mpr hm)
    obtain ⟨s₁, s₂, -, h₂⟩ := exists_of_doubled_eq_append (x := []) (Ne.symm hc) h.symm
    exact ih hv h₂

/-- What has a blank but no quotes stands in an identifier only between its quotes. -/
theorem WellFormed.exists_quoted (h : WellFormed (x ++ ' ' :: (v ++ y))) (hquote : '"' ∉ v) :
    ∃ s₁ s₂, x = '"' :: doubled s₁ ∧ y = doubled s₂ ++ ['"'] := by
  generalize ht : x ++ ' ' :: (v ++ y) = t at h
  have hspace : continuesBare ' ' = false := by decide
  cases h with
  | @bare c s hc hs =>
    have hmem : ' ' ∈ c :: s := by simp [← ht]
    obtain rfl | hm := List.mem_cons.mp hmem
    · rw [continuesBare_of_startsBare hc] at hspace
      cases hspace
    · rw [hs ' ' hm] at hspace
      cases hspace
  | @quoted s hs =>
    cases x with
    | nil => cases ht
    | cons a x =>
      rw [List.cons_append, List.cons.injEq] at ht
      obtain ⟨rfl, ht⟩ := ht
      obtain rfl | ⟨y, b, rfl⟩ := y.eq_nil_or_concat'
      -- the closing quote is not in `v`
      · have hlast := congrArg List.getLast? ht
        have hmem : '"' ∈ ' ' :: v := List.mem_of_getLast? (by simpa using hlast)
        simp [hquote] at hmem
      · have hcut : (x ++ ' ' :: (v ++ y)) ++ [b] = doubled s ++ ['"'] := by simpa using ht
        obtain ⟨hinside, hb⟩ := List.append_inj' hcut rfl
        obtain ⟨s₁, s', rfl, hrest⟩ := exists_of_doubled_eq_append (by decide) hinside.symm
        obtain ⟨s₂, rfl⟩ := exists_of_append_eq_doubled hquote hrest
        exact ⟨s₁, s₂, rfl, by rw [hb]⟩

/-- It may be taken out, if this does not leave the quotes with nothing between them. -/
theorem WellFormed.take_out (h : WellFormed (x ++ ' ' :: (v ++ y))) (hquote : '"' ∉ v)
    (hy : y.head? ≠ some '"') : WellFormed (x ++ y) := by
  obtain ⟨s₁, s₂, rfl, rfl⟩ := h.exists_quoted hquote
  have hs₂ : s₂ ≠ [] := by
    rintro rfl
    exact hy rfl
  have htext : '"' :: doubled s₁ ++ (doubled s₂ ++ ['"']) = '"' :: (doubled (s₁ ++ s₂) ++ ['"']) := by
    rw [doubled_append, List.append_assoc, List.cons_append]
  rw [htext]
  exact .quoted (by simp [hs₂])

end Identifier

namespace QualifiedName

variable {q : QualifiedName}

/-- A blank in a name stands before a closing quote. -/
theorem quote_mem (hq : q.WellFormed) (h : q.text = x ++ ' ' :: y) : '"' ∈ y := by
  have hinside {t y : Text} (ht : Identifier.WellFormed t) (h : t = x ++ ' ' :: y) : '"' ∈ y := by
    subst h
    obtain ⟨_, s₂, -, rfl⟩ := WellFormed.exists_quoted (v := []) ht List.not_mem_nil
    simp
  obtain ⟨_ | schema, name⟩ := q
  · exact hinside hq.name h
  · have htext : schema ++ '.' :: name = x ++ ' ' :: y := h
    obtain ⟨z, rfl, hz⟩ | ⟨z, hschema, hz⟩ := List.append_eq_append_iff.mp htext
    · cases z with
      | nil => cases hz
      | cons a z =>
        rw [List.cons_append, List.cons.injEq] at hz
        obtain ⟨-, rfl⟩ := hz
        obtain ⟨_, s₂, -, rfl⟩ := WellFormed.exists_quoted (v := []) hq.name List.not_mem_nil
        simp
    · cases z with
      | nil => cases hz
      | cons a z =>
        rw [List.cons_append, List.cons.injEq] at hz
        obtain ⟨rfl, rfl⟩ := hz
        exact List.mem_append_left _ (hinside (hq.schema schema rfl) hschema)

/-- From the text of a name, too, it may be taken out. -/
theorem exists_take_out (hq : q.WellFormed) (h : q.text = x ++ ' ' :: (v ++ y))
    (hquote : '"' ∉ v) (hy : y.head? ≠ some '"') : ∃ q' : QualifiedName, q'.WellFormed ∧ q'.text = x ++ y := by
  obtain ⟨_ | schema, name⟩ := q
  · have hname : name = x ++ ' ' :: (v ++ y) := h
    refine ⟨⟨none, x ++ y⟩, ⟨nofun, ?_⟩, rfl⟩
    exact WellFormed.take_out (hname ▸ hq.name) hquote hy
  · have hschema := hq.schema schema rfl
    have htext : schema ++ '.' :: name = x ++ ' ' :: (v ++ y) := h
    obtain ⟨z, rfl, hz⟩ | ⟨z, rfl, hz⟩ := List.append_eq_append_iff.mp htext
    -- behind the schema it stands in the name
    · cases z with
      | nil => cases hz
      | cons a z =>
        rw [List.cons_append, List.cons.injEq] at hz
        obtain ⟨rfl, rfl⟩ := hz
        refine ⟨⟨some schema, z ++ y⟩, ⟨hq.schema, WellFormed.take_out hq.name hquote hy⟩, ?_⟩
        simp [text, qualify]
    -- else it ends before the schema does
    · cases z with
      | nil => cases hz
      | cons a z =>
        rw [List.cons_append, List.cons.injEq] at hz
        obtain ⟨rfl, hz⟩ := hz
        obtain ⟨z', rfl, rfl⟩ | ⟨z', rfl, hz'⟩ := List.append_eq_append_iff.mp hz
        · have hz'' : z'.head? ≠ some '"' := by
            cases z' with
            | nil => simp
            | cons a z' => exact hy
          refine ⟨⟨some (x ++ z'), name⟩, ⟨?_, hq.name⟩, ?_⟩
          · rintro _ ⟨⟩
            exact WellFormed.take_out hschema hquote hz''
          · simp [text, qualify]
        · have hz : '"' ∉ z := fun hm => hquote (List.mem_append_left z' hm)
          obtain ⟨_, s₂, -, hnil⟩ := WellFormed.exists_quoted (y := []) (by simpa using hschema) hz
          simp at hnil

/-- The text of a name with its schema is what is read as one. -/
theorem eq_append_of_mem {q : QualifiedName} (h : (q, rest) ∈ qualifiedName s) :
    s = q.text ++ rest ∧ q.WellFormed := by
  obtain h | h := mem_orElse.mp h
  · obtain ⟨schema, t, hschema, h⟩ := mem_bind.mp h
    obtain ⟨_, u, hdot, h⟩ := mem_bind.mp h
    obtain ⟨name, v, hname, h⟩ := mem_bind.mp h
    obtain ⟨rfl, rfl⟩ := mem_pure.mp h
    obtain ⟨rfl, hs⟩ := eq_append_of_mem_identifier hschema
    obtain rfl := mem_char.mp hdot
    obtain ⟨rfl, hn⟩ := eq_append_of_mem_identifier hname
    refine ⟨by simp [text, qualify], ?_, hn⟩
    rintro _ ⟨⟩
    exact hs
  · obtain ⟨name, v, hname, h⟩ := mem_bind.mp h
    obtain ⟨rfl, rfl⟩ := mem_pure.mp h
    obtain ⟨rfl, hn⟩ := eq_append_of_mem_identifier hname
    refine ⟨rfl, ?_, hn⟩
    rintro _ ⟨⟩

end QualifiedName

namespace Reading

variable {α : Type} {r : Reading α} {o : Option α}

theorem mem_optional : (o, rest) ∈ (optional r) s ↔
    (∃ a, o = some a ∧ (a, rest) ∈ r s) ∨ (o = none ∧ rest = s) := by
  have hsome : (o, rest) ∈ (some <$> r : Reading (Option α)) s ↔ ∃ a, o = some a ∧ (a, rest) ∈ r s := by
    refine mem_bind.trans ⟨?_, ?_⟩
    · rintro ⟨a, u, ha, ho⟩
      obtain ⟨rfl, rfl⟩ := mem_pure.mp ho
      exact ⟨a, rfl, ha⟩
    · rintro ⟨a, rfl, ha⟩
      exact ⟨a, rest, ha, mem_pure.mpr ⟨rfl, rfl⟩⟩
  exact mem_orElse.trans (or_congr hsome mem_pure)

end Reading

namespace Heading

/-- The words of a table's creation are what is read as them. -/
theorem exists_of_mem_tableWords (h : ((), rest) ∈ tableWords s) :
    ∃ ws ∈ Kind.table.wordings, ∃ front, s = front ++ rest ∧ Spells ws front := by
  obtain ⟨_, t, hunlogged, htable⟩ := mem_bind.mp h
  obtain ⟨_, u, htable, hmaybe⟩ := mem_bind.mp htable
  obtain ⟨a, rfl, ha⟩ := afterWord_eq_some_iff.mp (mem_word.mp htable)
  have htail : ∃ vs ∈ [[], ["IF", "NOT", "EXISTS"]], ∃ front, a ++ u = front ++ rest ∧
      Spells ("TABLE" :: vs) front := by
    obtain ⟨_, v, hoptional, h⟩ := mem_bind.mp hmaybe
    obtain ⟨-, rfl⟩ := mem_pure.mp h
    obtain ⟨_, -, h⟩ | ⟨-, rfl⟩ := mem_optional.mp hoptional
    · obtain ⟨_, s₁, hblanks₁, h⟩ := mem_bind.mp h
      obtain ⟨_, s₂, hif, h⟩ := mem_bind.mp h
      obtain ⟨_, s₃, hblanks₂, h⟩ := mem_bind.mp h
      obtain ⟨_, s₄, hnot, h⟩ := mem_bind.mp h
      obtain ⟨_, s₅, hblanks₃, hexists⟩ := mem_bind.mp h
      obtain ⟨g₁, rfl, hg₁⟩ := exists_of_mem_blanks hblanks₁
      obtain ⟨b, rfl, hb⟩ := afterWord_eq_some_iff.mp (mem_word.mp hif)
      obtain ⟨g₂, rfl, hg₂⟩ := exists_of_mem_blanks hblanks₂
      obtain ⟨c, rfl, hc⟩ := afterWord_eq_some_iff.mp (mem_word.mp hnot)
      obtain ⟨g₃, rfl, hg₃⟩ := exists_of_mem_blanks hblanks₃
      obtain ⟨d, rfl, hd⟩ := afterWord_eq_some_iff.mp (mem_word.mp hexists)
      refine ⟨["IF", "NOT", "EXISTS"], by simp, a ++ g₁ ++ (b ++ g₂ ++ (c ++ g₃ ++ d)), by simp, ?_⟩
      exact .cons ha hg₁ (.cons hb hg₂ (.cons hc hg₃ (.single hd)))
    · exact ⟨[], by simp, a, rfl, .single ha⟩
  obtain ⟨vs, hvs, front, heq, hfront⟩ := htail
  rw [heq] at hunlogged
  obtain ⟨_, v, hoptional, h⟩ := mem_bind.mp hunlogged
  obtain ⟨-, rfl⟩ := mem_pure.mp h
  obtain ⟨_, -, h⟩ | ⟨-, rfl⟩ := mem_optional.mp hoptional
  · obtain ⟨_, s₁, hword, hblanks⟩ := mem_bind.mp h
    obtain ⟨b, rfl, hb⟩ := afterWord_eq_some_iff.mp (mem_word.mp hword)
    obtain ⟨gap, rfl, hgap⟩ := exists_of_mem_blanks hblanks
    refine ⟨"UNLOGGED" :: "TABLE" :: vs, ?_, b ++ gap ++ front, by simp, .cons hb hgap hfront⟩
    simp only [List.mem_cons, List.not_mem_nil, or_false] at hvs
    obtain rfl | rfl := hvs <;> decide
  · refine ⟨"TABLE" :: vs, ?_, front, rfl, hfront⟩
    simp only [List.mem_cons, List.not_mem_nil, or_false] at hvs
    obtain rfl | rfl := hvs <;> decide

end Heading

/-- What is no blank stands in words only if they are spelt with it. -/
theorem Spells.not_mem {ws : List String} (h : Spells ws s) (hc : isBlank c = false)
    (hws : ∀ w ∈ ws, capital c ∉ w.toList) : c ∉ s := by
  have hword {w : String} {front : Text} (hfront : front.map capital = w.toList)
      (hw : capital c ∉ w.toList) : c ∉ front :=
    fun hm => hw (hfront ▸ List.mem_map_of_mem hm)
  induction h with
  | single hfront => exact hword hfront (hws _ List.mem_cons_self)
  | @cons w ws front gap t hfront hgap _ ih =>
    obtain ⟨hw, hws⟩ := List.forall_mem_cons.mp hws
    simp only [List.mem_append, not_or]
    exact ⟨⟨hword hfront hw, not_mem_of_forall hgap.2 hc⟩, ih hws⟩

namespace Column

/-- A table's header: its words, its name, and blanks before the parenthesis. -/
def IsHeader (w : Text) : Prop :=
  ∃ ws words gap, ∃ q : QualifiedName, ∃ space, ws ∈ Kind.table.wordings ∧
    Spells ("CREATE" :: ws) words ∧ IsGap gap ∧ q.WellFormed ∧ (∀ c ∈ space, isBlank c = true) ∧
    w = words ++ (gap ++ (q.text ++ space))

theorem exists_of_mem_tableHeader (h : ((), rest) ∈ tableHeader s) :
    ∃ w, s = w ++ rest ∧ IsHeader w ∧ rest.head? = some '(' := by
  obtain ⟨_, t, hcreation, h⟩ := mem_bind.mp h
  obtain ⟨_, t', hgap, h⟩ := mem_bind.mp h
  obtain ⟨hparenthesis, rfl⟩ := mem_ahead.mp h
  obtain ⟨_, s₁, hcreate, h⟩ := mem_bind.mp hcreation
  obtain ⟨_, s₂, hblanks, h⟩ := mem_bind.mp h
  obtain ⟨_, s₃, hwords, h⟩ := mem_bind.mp h
  obtain ⟨_, s₄, hblanks', h⟩ := mem_bind.mp h
  obtain ⟨q, s₅, hname, h⟩ := mem_bind.mp h
  obtain ⟨-, rfl⟩ := mem_pure.mp h
  obtain ⟨a, rfl, ha⟩ := afterWord_eq_some_iff.mp (mem_word.mp hcreate)
  obtain ⟨g, rfl, hg⟩ := exists_of_mem_blanks hblanks
  obtain ⟨ws, hws, b, rfl, hb⟩ := Heading.exists_of_mem_tableWords hwords
  obtain ⟨gap, rfl, hgap'⟩ := exists_of_mem_blanks hblanks'
  obtain ⟨rfl, hq⟩ := QualifiedName.eq_append_of_mem hname
  obtain rfl := mem_gap.mp hgap
  refine ⟨a ++ g ++ b ++ (gap ++ (q.text ++ t.takeWhile isBlank)), ?_, ?_, by simpa using hparenthesis⟩
  · simp [Statement.takeWhile_append_trimStart]
  · exact ⟨ws, _, gap, q, _, hws, .cons ha hg hb, hgap', hq, fun _ => List.mem_takeWhile_imp, rfl⟩

theorem ends_of_head?_eq (h : rest.head? = some '(') : Ends rest := by
  intro c hc
  rw [h] at hc
  cases hc
  decide

/-- No identifier goes on into blanks and a parenthesis. -/
theorem ends_append {space : Text} (hspace : ∀ c ∈ space, isBlank c = true)
    (h : rest.head? = some '(') :
    Ends (space ++ rest) ∧ (space ++ rest).head? ≠ some '.' := by
  cases space with
  | nil =>
    refine ⟨ends_of_head?_eq h, ?_⟩
    rw [List.nil_append, h]
    decide
  | cons c space =>
    have hgap : IsGap (c :: space) := ⟨List.cons_ne_nil c space, hspace⟩
    exact ⟨ends_of_isGap hgap rest, head?_ne_dot_of_isGap hgap rest⟩

/-- `IF` may be the table's own name: before a parenthesis it is not read as anything else. -/
theorem bind_blanks_eq_nil {gap space : Text} {q : QualifiedName} (hgap : IsGap gap)
    (hq : q.WellFormed) (hspace : ∀ c ∈ space, isBlank c = true) (h : rest.head? = some '(') :
    (do blanks; word "IF"; blanks; word "NOT"; blanks; word "EXISTS" : Reading Unit)
      (gap ++ (q.text ++ (space ++ rest))) = [] := by
  obtain ⟨hends, -⟩ := ends_append hspace h
  rw [bind_apply, blanks_append hgap (QualifiedName.head?_isBlank hq hends),
    List.flatMap_singleton]
  refine List.eq_nil_iff_forall_not_mem.mpr fun ⟨_, _⟩ hmem => ?_
  obtain ⟨_, s₁, hif, hmem₁⟩ := mem_bind.mp hmem
  obtain ⟨_, s₂, hblanks, hmem₂⟩ := mem_bind.mp hmem₁
  obtain ⟨_, s₃, hnot, -⟩ := mem_bind.mp hmem₂
  obtain ⟨a, htext, ha⟩ := afterWord_eq_some_iff.mp (mem_word.mp hif)
  obtain ⟨c, more, rfl, hc, rfl⟩ := mem_blanks.mp hblanks
  have hkeyword : IsKeyword "IF" := by decide
  obtain ⟨_ | schema, name⟩ := q
  · obtain rfl := hkeyword.eq_of_append hq.name hends htext ha hc
    have hrest : trimStart (space ++ rest) = rest := trimStart_append hspace (by simp [h]; decide)
    have hmore : space ++ rest = c :: more := List.append_cancel_left htext
    rw [hmore, trimStart, List.dropWhile_cons_of_pos hc] at hrest
    obtain ⟨b, hb, hcapital⟩ := afterWord_eq_some_iff.mp (mem_word.mp hnot)
    rw [trimStart, hrest] at hb
    cases b with
    | nil => cases hcapital
    | cons d b =>
      rw [hb, List.cons_append, List.head?_cons, Option.some.injEq] at h
      rw [List.map_cons, h] at hcapital
      exact absurd (List.cons.inj hcapital).1 (by decide)
  · have hschema : schema ++ '.' :: (name ++ (space ++ rest)) = a ++ c :: more := by
      simpa [QualifiedName.text, qualify] using htext
    obtain rfl := hkeyword.eq_of_append (hq.schema schema rfl) (QualifiedName.ends_dot _) hschema
      ha hc
    obtain ⟨rfl, -⟩ := List.cons.inj (List.append_cancel_left hschema)
    revert hc
    decide

/-- A header is read where it stands. -/
theorem IsHeader.prefers (hw : IsHeader w) (h : rest.head? = some '(') :
    Prefers tableHeader (w ++ rest) () rest := by
  obtain ⟨ws, words, gap, q, space, hws, hwords, hgap, hq, hspace, rfl⟩ := hw
  obtain ⟨hends, hdot⟩ := ends_append hspace h
  have hname := QualifiedName.head?_isBlank hq hends
  have hmissing := bind_blanks_eq_nil hgap hq hspace h
  have hread := QualifiedName.prefers_qualifiedName hq hends hdot
  cases hwords with
  | single => exact (Kind.wordings_ne_nil hws rfl).elim
  | @cons _ _ create gap₀ front hcreate hgap₀ hfront =>
    have hstart (s : Text) : (front ++ s).head?.any isBlank = false := by
      cases ws with
      | nil => exact (Kind.wordings_ne_nil hws rfl).elim
      | cons v ws =>
        obtain ⟨hv, hletters⟩ := Kind.wordings_letters hws v List.mem_cons_self
        exact hfront.head?_isBlank hv hletters s
    have hcreation : Prefers Heading.tableWords (front ++ (gap ++ (q.text ++ (space ++ rest)))) ()
        (gap ++ (q.text ++ (space ++ rest))) := by
      simp only [Kind.wordings, List.mem_cons, List.not_mem_nil, or_false] at hws
      obtain rfl | rfl | rfl | rfl := hws
      · exact Heading.prefers_tableWords_of_missing [] [] hfront (by simp) (by simp) hmissing
      · exact Heading.prefers_tableWords_of_missing ["UNLOGGED"] [] hfront (by simp) (by simp)
          hmissing
      · exact Heading.prefers_tableWords_of_missing [] ["IF", "NOT", "EXISTS"] hfront (by simp)
          (by simp) hmissing
      · exact Heading.prefers_tableWords_of_missing ["UNLOGGED"] ["IF", "NOT", "EXISTS"] hfront
          (by simp) (by simp) hmissing
    have hskip : Prefers Reading.gap (space ++ rest) () rest := by
      rw [Prefers, Reading.gap, trimStart_append hspace (by simp [h]; decide)]
      rfl
    have hparenthesis : Prefers (ahead fun s => s.head? = some '(') rest () rest := by
      rw [Prefers, ahead, if_pos (by simp [h])]
      rfl
    simp only [List.append_assoc]
    refine Prefers.bind (a := ⟨q.schemaOrPublic, some q.name, none, none⟩)
      (u := space ++ rest) ?_ (hskip.bind hparenthesis)
    refine (prefers_word hcreate _).bind ((prefers_blanks hgap₀ (hstart _)).bind ?_)
    exact hcreation.bind ((prefers_blanks hgap hname).bind (hread.bind prefers_pure))

/-- No clause stands amid blanks that are followed by a parenthesis. -/
theorem eq_nil_of_append_eq {z r clause : Text} (hz : ∀ c ∈ z, isBlank c = true)
    (h : rest.head? = some '(') (htext : z ++ rest = ' ' :: (clause ++ r))
    (hparenthesis : clause.head? ≠ some '(') (hblank : clause.head?.any isBlank = false) :
    clause = [] ∧ ∃ z', z = ' ' :: z' ∧ r = z' ++ rest := by
  cases z with
  | nil =>
    rw [List.nil_append] at htext
    rw [htext] at h
    cases h
  | cons a z =>
    rw [List.cons_append, List.cons.injEq] at htext
    obtain ⟨rfl, htext⟩ := htext
    cases clause with
    | nil => exact ⟨rfl, z, rfl, htext.symm⟩
    | cons d clause =>
      cases z with
      | nil =>
        rw [List.nil_append] at htext
        rw [htext] at h
        exact (hparenthesis h).elim
      | cons e z =>
        obtain rfl : e = d := (List.cons.inj htext).1
        have he := hz e (by simp)
        simp [he] at hblank

/-- A header that begins with `k`, a parenthesis included, has the parenthesis in its quoted name. If
a clause without quotes comes behind `k`, there is a header without the clause, too. -/
theorem IsHeader.take_out {k z r clause : Text} (hw : IsHeader (k ++ z)) (hk : '(' ∈ k)
    (h : rest.head? = some '(') (htext : z ++ rest = ' ' :: (clause ++ r)) (hquote : '"' ∉ clause)
    (hparenthesis : clause.head? ≠ some '(') (hblank : clause.head?.any isBlank = false)
    (hr : r.head? ≠ some '"') :
    ∃ w' rest', k ++ r = w' ++ rest' ∧ IsHeader w' ∧ rest'.head? = some '(' := by
  obtain ⟨ws, words, gap, q, space, hws, hwords, hgap, hq, hspace, hwhole⟩ := hw
  obtain ⟨k, rfl, hname⟩ : ∃ k', k = words ++ gap ++ k' ∧ q.text ++ space = k' ++ z := by
    rw [← List.append_assoc] at hwhole
    obtain ⟨y, hy, -⟩ | ⟨y, hy, hname⟩ := List.append_eq_append_iff.mp hwhole
    · have hwords' : '(' ∉ words := by
        have hall : ∀ ws ∈ Kind.table.wordings, ∀ w ∈ "CREATE" :: ws, capital '(' ∉ w.toList := by
          decide
        exact hwords.not_mem (by decide) (hall ws hws)
      have hmem : '(' ∈ words ++ gap := hy ▸ List.mem_append_left y hk
      obtain hm | hm := List.mem_append.mp hmem
      · exact (hwords' hm).elim
      · exact (not_mem_of_forall hgap.2 (by decide) hm).elim
    · exact ⟨y, hy, hname⟩
  have hheader {q' : QualifiedName} {space' : Text} (hq' : q'.WellFormed)
      (hspace' : ∀ c ∈ space', isBlank c = true) :
      IsHeader (words ++ gap ++ (q'.text ++ space')) :=
    ⟨ws, words, gap, q', space', hws, hwords, hgap, hq', hspace', List.append_assoc ..⟩
  -- amid the blanks behind the name there is no clause
  have hblanks : (∃ s₁, k = q.text ++ s₁ ∧ space = s₁ ++ z) →
      ∃ w' rest', words ++ gap ++ k ++ r = w' ++ rest' ∧ IsHeader w' ∧ rest'.head? = some '(' := by
    rintro ⟨s₁, rfl, rfl⟩
    obtain ⟨rfl, z, rfl, rfl⟩ := eq_nil_of_append_eq
      (fun c hc => hspace c (List.mem_append_right s₁ hc)) h htext hparenthesis hblank
    refine ⟨words ++ gap ++ (q.text ++ (s₁ ++ z)), rest, by simp, hheader hq fun c hc => ?_, h⟩
    refine hspace c ?_
    obtain hc | hc := List.mem_append.mp hc
    · exact List.mem_append_left _ hc
    · exact List.mem_append_right s₁ (List.mem_cons_of_mem ' ' hc)
  obtain ⟨s₁, hs₁, hs₂⟩ | ⟨t, ht, rfl⟩ := List.append_eq_append_iff.mp hname
  · exact hblanks ⟨s₁, hs₁, hs₂⟩
  · cases t with
    | nil => exact hblanks ⟨[], by simpa using ht.symm, rfl⟩
    | cons a t =>
      simp only [List.cons_append, List.append_assoc, List.cons.injEq] at htext
      obtain ⟨rfl, htext⟩ := htext
      have hmem := QualifiedName.quote_mem hq ht
      obtain ⟨y, hy, -⟩ | ⟨y, rfl, hy⟩ := List.append_eq_append_iff.mp htext
      · exact (hquote (hy ▸ List.mem_append_left y hmem)).elim
      · have hyhead : y.head? ≠ some '"' := by
          have hne : y ≠ [] := by
            rintro rfl
            exact hquote (by simpa using hmem)
          rwa [hy, List.head?_append_of_ne_nil _ hne] at hr
        obtain ⟨q', hq', htext'⟩ := QualifiedName.exists_take_out hq ht hquote hyhead
        refine ⟨words ++ gap ++ (q'.text ++ space), rest, ?_, hheader hq' hspace, h⟩
        rw [htext', hy]
        simp

/-- The header that is found first is found first, too, if such a clause comes in behind its
parenthesis. -/
theorem search_tableHeader_insert {here l r clause : Text}
    (h : search tableHeader (x ++ '(' :: (l ++ r)) = some ⟨(), here, '(' :: (l ++ r)⟩)
    (hquote : '"' ∉ clause) (hparenthesis : clause.head? ≠ some '(')
    (hblank : clause.head?.any isBlank = false) (hr : r.head? ≠ some '"') :
    ∃ here', search tableHeader (x ++ '(' :: (l ++ ' ' :: clause ++ r)) =
      some ⟨(), here', '(' :: (l ++ ' ' :: clause ++ r)⟩ := by
  obtain ⟨front, more, htext, hread, hbefore⟩ := search_eq_some h
  dsimp only at htext hread
  obtain ⟨w, rfl, hw, -⟩ := exists_of_mem_tableHeader (hread ▸ List.mem_cons_self)
  obtain rfl : x = front ++ w := by
    rw [← List.append_assoc] at htext
    exact List.append_cancel_right htext
  obtain ⟨more', hmore⟩ := List.head?_eq_some_iff.mp
    (hw.prefers (List.head?_cons (l := l ++ ' ' :: clause ++ r)))
  refine ⟨w ++ '(' :: (l ++ ' ' :: clause ++ r), ?_⟩
  rw [List.append_assoc]
  refine search_of_append hmore fun a b hab hlt => ?_
  refine List.eq_nil_iff_forall_not_mem.mpr fun ⟨_, rest⟩ hmem => ?_
  obtain ⟨w', rfl, hw', hrest⟩ := exists_of_mem_tableHeader hmem
  -- without the clause there would be a header at the same place
  suffices hold : ∃ k w'' rest'', front = a ++ k ∧
      k ++ (w ++ '(' :: (l ++ r)) = w'' ++ rest'' ∧ IsHeader w'' ∧ rest''.head? = some '(' by
    obtain ⟨k, w'', rest'', rfl, hk, hw'', hrest''⟩ := hold
    have hnil := hbefore a (w'' ++ rest'') (by rw [← hk]; simp) hlt
    have hsome := hw''.prefers hrest''
    rw [Prefers, hnil] at hsome
    cases hsome
  obtain ⟨k, rfl⟩ : a <+: front :=
    List.prefix_of_prefix_length_le ⟨_, hab.symm⟩ (List.prefix_append _ _) hlt.le
  have hcut : (k ++ w ++ '(' :: l) ++ (' ' :: (clause ++ r)) = w' ++ rest := by
    rw [List.append_assoc, List.append_cancel_left_eq] at hab
    simpa using hab
  refine ⟨k, ?_⟩
  obtain ⟨z, rfl, hz⟩ | ⟨z, hz, rfl⟩ := List.append_eq_append_iff.mp hcut
  · obtain ⟨w'', rest'', hw''⟩ :=
      hw'.take_out (by simp) hrest hz.symm hquote hparenthesis hblank hr
    exact ⟨w'', rest'', rfl, by simpa using hw''⟩
  · cases z with
    | nil =>
      rw [List.nil_append] at hrest
      cases hrest
    | cons d z =>
      have hold : k ++ w ++ '(' :: l ++ r = w' ++ d :: z ++ r := by rw [hz]
      exact ⟨w', d :: z ++ r, rfl, by simpa using hold, hw', hrest⟩

end Column
end SchemaDump
