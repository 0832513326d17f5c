import SchemaDump.Proofs.Columns
import SchemaDump.Proofs.TableHeaders

/-! Clauses within the item of a column. The item begins with the column's name, which stays as it
is, and the clause comes behind it: before a null clause that the item ends in, or else before the
blanks and commas at its end. -/
namespace SchemaDump.Column

open Text Identifier Reading

variable {column p q item s t front rest clause : Text} {c : Char}

/-- The name stands behind blanks and before one. -/
theorem isNamed_iff : isNamed column s = true ↔ ∃ blanks c rest,
    (∀ d ∈ blanks, isBlank d = true) ∧ isBlank c = true ∧
      s = blanks ++ (column ++ c :: rest) := by
  induction s with
  | nil => simp [isNamed]
  | cons d s ih =>
    rw [isNamed, Bool.or_eq_true, Bool.and_eq_true, Bool.and_eq_true, ih]
    constructor
    · rintro (⟨hstarts, hblank⟩ | ⟨hd, blanks, c, rest, hblanks, hc, rfl⟩)
      · obtain ⟨more, hmore⟩ := List.isPrefixOf_iff_prefix.mp hstarts
        rw [← hmore, List.drop_left] at hblank
        cases more with
        | nil => cases hblank
        | cons c rest => exact ⟨[], c, rest, by simp, by simpa using hblank, hmore.symm⟩
      · exact ⟨d :: blanks, c, rest, List.forall_mem_cons.mpr ⟨hd, hblanks⟩, hc, rfl⟩
    · rintro ⟨blanks, c, rest, hblanks, hc, hs⟩
      cases blanks with
      | nil =>
        left
        rw [List.nil_append] at hs
        rw [hs, List.drop_left]
        exact ⟨List.isPrefixOf_iff_prefix.mpr (List.prefix_append _ _), by simpa using hc⟩
      | cons b blanks =>
        right
        obtain ⟨rfl, rfl⟩ := List.cons.inj hs
        obtain ⟨hb, hblanks⟩ := List.forall_mem_cons.mp hblanks
        exact ⟨hb, blanks, c, rest, hblanks, hc, rfl⟩

/-- An item is named by one identifier at most. -/
theorem eq_of_isNamed (hp : WellFormed p) (hq : WellFormed q) (h : isNamed p item = true)
    (h' : isNamed q item = true) : p = q := by
  obtain ⟨b, c, rest, hb, hc, rfl⟩ := isNamed_iff.mp h
  obtain ⟨b', c', rest', hb', hc', heq⟩ := isNamed_iff.mp h'
  have htrim := congrArg trimStart heq
  rw [trimStart_append hb (head?_isBlank_append hp _),
    trimStart_append hb' (head?_isBlank_append hq _)] at htrim
  have hends {c : Char} (hc : isBlank c = true) (rest : Text) : Ends (c :: rest) :=
    ends_of_isGap ⟨List.cons_ne_nil c [], by simpa using hc⟩ rest
  have hlength := head?_lengths_append hp (hends hc rest)
  rw [htrim, head?_lengths_append hq (hends hc' rest'), Option.some.injEq] at hlength
  exact (List.append_inj htrim hlength.symm).1

/-- Blanks, `NULL` or `NOT NULL`, and perhaps more blanks. -/
def IsNullClause (t : Text) : Prop :=
  ∃ ws gap words space, ws ∈ [["NULL"], ["NOT", "NULL"]] ∧ IsGap gap ∧ Spells ws words ∧
    (∀ c ∈ space, isBlank c = true) ∧ t = gap ++ (words ++ space)

theorem exists_of_mem_nullClause {u : Unit} (h : (u, rest) ∈ nullClause t) : IsNullClause t := by
  obtain ⟨_, s₁, hblanks, h₁⟩ := mem_bind.mp h
  obtain ⟨_, s₂, hnot, h₂⟩ := mem_bind.mp h₁
  obtain ⟨_, s₃, hnull, h₃⟩ := mem_bind.mp h₂
  obtain ⟨_, s₄, hgap, h₄⟩ := mem_bind.mp h₃
  obtain ⟨hempty, rfl⟩ := mem_ahead.mp h₄
  obtain ⟨gap, rfl, hgap'⟩ := exists_of_mem_blanks hblanks
  obtain ⟨a, rfl, ha⟩ := afterWord_eq_some_iff.mp (mem_word.mp hnull)
  have hspace : ∀ c ∈ s₃, isBlank c = true := by
    have hnil : trimStart s₃ = [] := by
      rw [← mem_gap.mp hgap]
      exact List.isEmpty_iff.mp hempty
    intro c hc
    rw [← Statement.takeWhile_append_trimStart s₃, hnil, List.append_nil] at hc
    exact List.mem_takeWhile_imp hc
  obtain ⟨_, -, hnot⟩ | ⟨-, rfl⟩ := mem_optional.mp hnot
  · obtain ⟨_, s₅, hword, hmore⟩ := mem_bind.mp hnot
    obtain ⟨b, rfl, hb⟩ := afterWord_eq_some_iff.mp (mem_word.mp hword)
    obtain ⟨gap', rfl, hgap''⟩ := exists_of_mem_blanks hmore
    exact ⟨["NOT", "NULL"], gap, b ++ gap' ++ a, s₃, by simp, hgap', .cons hb hgap'' (.single ha),
      hspace, by simp⟩
  · exact ⟨["NULL"], gap, a, s₃, by simp, hgap', .single ha, hspace, rfl⟩

theorem word_not_eq_nil {words : Text} (h : words.map capital = "NULL".toList) (s : Text) :
    word "NOT" (words ++ s) = [] := by
  refine List.eq_nil_iff_forall_not_mem.mpr fun ⟨_, rest⟩ hmem => ?_
  obtain ⟨a, ha, hcapital⟩ := afterWord_eq_some_iff.mp (mem_word.mp hmem)
  have htake : ((words ++ s).map capital).take 3 = ((a ++ rest).map capital).take 3 := by rw [ha]
  rw [List.map_append, List.map_append, h, hcapital] at htake
  simp at htake

theorem nullClause_ne_nil (h : IsNullClause t) : nullClause t ≠ [] := by
  obtain ⟨ws, gap, words, space, hws, hgap, hwords, hspace, rfl⟩ := h
  have hend : Prefers (do Reading.gap; ahead List.isEmpty : Reading Unit) space () [] := by
    have htrim := trimStart_append (s := []) hspace rfl
    rw [List.append_nil] at htrim
    have hgap : Prefers Reading.gap space () [] := by
      rw [Prefers, Reading.gap, htrim]
      rfl
    exact hgap.bind rfl
  suffices hread : Prefers nullClause (gap ++ (words ++ space)) () [] by
    intro hnil
    rw [Prefers, hnil] at hread
    cases hread
  simp only [List.mem_cons, List.not_mem_nil, or_false] at hws
  obtain rfl | rfl := hws
  · have hnull := hwords.map_capital
    have hstart := hwords.head?_isBlank (by decide) (by decide) space
    refine (prefers_blanks hgap hstart).bind (Prefers.bind (prefers_none ?_) ?_)
    · exact bind_eq_nil (word_not_eq_nil hnull space)
    · exact (prefers_word hnull space).bind hend
  · have hstart := hwords.head?_isBlank (by decide) (by decide) space
    obtain ⟨a, gap', b, rfl, ha, hgap', hb⟩ := hwords.uncons
    have hstart' := hb.head?_isBlank (by decide) (by decide) space
    simp only [List.append_assoc] at hstart ⊢
    have hnot : Prefers (do word "NOT"; blanks : Reading Unit) (a ++ (gap' ++ (b ++ space))) ()
        (b ++ space) := (prefers_word ha _).bind (prefers_blanks hgap' hstart')
    exact (prefers_blanks hgap hstart).bind
      (hnot.optional.bind ((prefers_word hb.map_capital space).bind hend))

theorem IsNullClause.cons_blanks {blanks : Text} (h : IsNullClause t)
    (hblanks : ∀ c ∈ blanks, isBlank c = true) : IsNullClause (blanks ++ t) := by
  obtain ⟨ws, gap, words, space, hws, hgap, hwords, hspace, rfl⟩ := h
  refine ⟨ws, blanks ++ gap, words, space, hws, ⟨?_, ?_⟩, hwords, hspace, by simp⟩
  · simp [hgap.1]
  · intro c hc
    exact (List.mem_append.mp hc).elim (hblanks c) (hgap.2 c)

/-- It begins with a blank. -/
theorem IsNullClause.exists_cons (h : IsNullClause t) : ∃ c s, t = c :: s ∧ isBlank c = true := by
  obtain ⟨ws, gap, words, space, -, ⟨hne, hblank⟩, -, -, rfl⟩ := h
  obtain ⟨c, gap, rfl⟩ := List.exists_cons_of_ne_nil hne
  exact ⟨c, gap ++ (words ++ space), rfl, hblank c List.mem_cons_self⟩

theorem exists_of_nullClause? {afterBlank : Bool} (h : nullClause? afterBlank s = some t) :
    ∃ x, s = x ++ t ∧ IsNullClause t := by
  induction s generalizing afterBlank with
  | nil => cases h
  | cons c s ih =>
    rw [nullClause?] at h
    split at h
    · next hfound =>
      cases h
      refine ⟨[], rfl, ?_⟩
      have hne : nullClause (c :: s) ≠ [] := by simp_all
      obtain ⟨p, _, hp⟩ := List.exists_cons_of_ne_nil hne
      exact exists_of_mem_nullClause (hp ▸ List.mem_cons_self (a := (p.1, p.2)))
    · obtain ⟨x, rfl, ht⟩ := ih h
      exact ⟨c :: x, rfl, ht⟩

/-- None is found only where none begins, but amid blanks. -/
theorem exists_nullClause?_eq_some (afterBlank : Bool) {x : Text} (ht : IsNullClause t)
    (hs : s = x ++ t) (hx : afterBlank = true → ∃ c ∈ x, isBlank c = false) :
    ∃ u, nullClause? afterBlank s = some u ∧ t.length ≤ u.length := by
  induction s generalizing afterBlank x with
  | nil =>
    obtain ⟨c, v, rfl, -⟩ := ht.exists_cons
    simp at hs
  | cons c s ih =>
    rw [nullClause?]
    split
    · refine ⟨c :: s, rfl, ?_⟩
      rw [hs, List.length_append]
      omega
    · next hnone =>
      have hlater {blanks : Text} (hblanks : ∀ c ∈ blanks, isBlank c = true)
          (hall : c :: s = blanks ++ t) : afterBlank = true := by
        have hnull := hall ▸ ht.cons_blanks hblanks
        obtain ⟨d, v, hd, hblank⟩ := hnull.exists_cons
        obtain rfl := (List.cons.inj hd).1
        have hne := nullClause_ne_nil hnull
        simp_all
      cases x with
      | nil =>
        obtain ⟨d, hd, -⟩ := hx (hlater (List.forall_mem_nil _) hs)
        cases hd
      | cons d x =>
        obtain ⟨rfl, rfl⟩ := List.cons.inj hs
        refine ih _ rfl fun hc => ?_
        by_contra hno
        have hblanks : ∀ e ∈ c :: x, isBlank e = true := by
          refine List.forall_mem_cons.mpr ⟨hc, fun e he => ?_⟩
          by_contra hblank
          exact hno ⟨e, he, by simpa using hblank⟩
        obtain ⟨e, he, hblank⟩ := hx (hlater hblanks rfl)
        rw [hblanks e he] at hblank
        cases hblank

/-- In `core ++ null`, the end `null` is the longest null clause, or nothing if there is none. -/
def EndsInNull (core null : Text) : Prop :=
  (null = [] ∨ IsNullClause null) ∧
    ∀ x t, core ++ null = x ++ t → IsNullClause t → t.length ≤ null.length

theorem exists_endsInNull (s : Text) :
    ∃ core, s = core ++ (nullClause? false s).getD [] ∧
      EndsInNull core ((nullClause? false s).getD []) := by
  cases h : nullClause? false s with
  | none =>
    refine ⟨s, (List.append_nil s).symm, Or.inl rfl, fun x t hs ht => ?_⟩
    rw [Option.getD_none, List.append_nil] at hs
    obtain ⟨u, hu, -⟩ := exists_nullClause?_eq_some false ht hs nofun
    rw [h] at hu
    cases hu
  | some u =>
    obtain ⟨core, hs, hu⟩ := exists_of_nullClause? h
    refine ⟨core, hs, Or.inr hu, fun x t hxt ht => ?_⟩
    rw [Option.getD_some, ← hs] at hxt
    obtain ⟨v, hv, hle⟩ := exists_nullClause?_eq_some false ht hxt nofun
    rw [h] at hv
    cases hv
    exact hle

/-- A text ends in one such clause only. -/
theorem EndsInNull.unique {core core' null null' : Text} (h : EndsInNull core null)
    (h' : EndsInNull core' null') (hs : core ++ null = core' ++ null') :
    core = core' ∧ null = null' := by
  have hle {core core' null null' : Text} (h : EndsInNull core null) (h' : EndsInNull core' null')
      (hs : core ++ null = core' ++ null') : null'.length ≤ null.length := by
    obtain rfl | hnull := h'.1
    · exact Nat.zero_le _
    · exact h.2 core' null' hs hnull
  exact List.append_inj' hs (Nat.le_antisymm (hle h' h hs.symm) (hle h h' hs))

theorem IsNullClause.not_mem (h : IsNullClause t) (hc : isBlank c = false)
    (hletter : capital c ∉ "NOTUL".toList) : c ∉ t := by
  obtain ⟨ws, gap, words, space, hws, hgap, hwords, hspace, rfl⟩ := h
  have hletters : ∀ ws ∈ [["NULL"], ["NOT", "NULL"]], ∀ w ∈ ws, w.toList ⊆ "NOTUL".toList := by
    decide
  rw [List.mem_append, List.mem_append, not_or, not_or]
  refine ⟨not_mem_of_forall hgap.2 hc, ?_, not_mem_of_forall hspace hc⟩
  exact hwords.not_mem hc fun w hw hm => hletter (hletters ws hws w hw hm)

/-- An identifier ends in no blank or comma, and if it has a blank, in a quote. -/
theorem WellFormed.exists_last (hp : WellFormed p) :
    ∃ front c, p = front ++ [c] ∧ isFiller c = false ∧ ((∃ d ∈ p, isBlank d = true) → c = '"') := by
  cases hp with
  | @bare c s hc hs =>
    have hcontinues : ∀ d ∈ c :: s, continuesBare d = true :=
      List.forall_mem_cons.mpr ⟨continuesBare_of_startsBare hc, hs⟩
    have hblank : ∀ d ∈ c :: s, isBlank d = false := by
      intro d hd
      by_contra hb
      have hno := continuesBare_of_isBlank (c := d) (by simpa using hb)
      rw [hcontinues d hd] at hno
      cases hno
    obtain ⟨front, e, he⟩ := (c :: s).eq_nil_or_concat'.resolve_left (List.cons_ne_nil c s)
    have hmem : e ∈ c :: s := by simp [he]
    refine ⟨front, e, he, ?_, ?_⟩
    · have hcomma : e ≠ ',' := by
        rintro rfl
        exact not_mem_of_forall hcontinues (by decide) hmem
      simp [isFiller, hcomma, hblank e hmem]
    · rintro ⟨d, hd, hb⟩
      rw [hblank d hd] at hb
      cases hb
  | @quoted s hs => exact ⟨'"' :: doubled s, '"', by simp, by decide, fun _ => rfl⟩

/-- What an item of the column is made of: blanks, the column and perhaps more, a null clause or
nothing, and blanks and commas. -/
structure IsItem (column blanks more null filler : Text) : Prop where
  areBlank : ∀ c ∈ blanks, isBlank c = true
  areFiller : ∀ c ∈ filler, isFiller c = true
  endsInNull : EndsInNull (column ++ more) null
  last : ∀ c ∈ (column ++ more ++ null).getLast?, isFiller c = false
  followed : (more ++ null ++ filler).head?.any isBlank = true

theorem exists_isItem (hp : WellFormed p) (h : isNamed p item = true) :
    ∃ blanks more null filler, item = blanks ++ (p ++ more ++ null) ++ filler ∧
      IsItem p blanks more null filler := by
  obtain ⟨blanks, c, rest, hblanks, hc, rfl⟩ := isNamed_iff.mp h
  obtain ⟨front, e, hfront, he, hquote⟩ := WellFormed.exists_last hp
  have hcut := dropEnd_append isFiller (c :: rest)
  have hlast : ∀ d ∈ (p ++ dropEnd isFiller (c :: rest)).getLast?, isFiller d = false := by
    have hwhole := getLast?_dropEnd isFiller (front ++ e :: (c :: rest))
    rwa [dropEnd_append_of_not he, ← List.singleton_append, ← List.append_assoc, ← hfront] at hwhole
  have hfiller : ∀ d ∈ (c :: rest).rtakeWhile isFiller, isFiller d = true :=
    fun d => List.mem_rtakeWhile_imp
  generalize dropEnd isFiller (c :: rest) = y at hcut hlast
  generalize (c :: rest).rtakeWhile isFiller = filler at hcut hfiller
  obtain ⟨core, hcore, hends⟩ := exists_endsInNull (p ++ y)
  generalize (nullClause? false (p ++ y)).getD [] = null at hcore hends
  -- the null clause begins behind the name: in the name, a blank stands before a quote
  obtain ⟨more, rfl, rfl⟩ : ∃ more, core = p ++ more ∧ y = more ++ null := by
    obtain ⟨z, hz, hnull⟩ | ⟨z, hz, hy⟩ := List.append_eq_append_iff.mp hcore
    · exact ⟨z, hz, hnull⟩
    · cases z with
      | nil => exact ⟨[], by simpa using hz.symm, hy.symm⟩
      | cons d z =>
        have hclause := hends.1.resolve_left (by simp [hy])
        obtain ⟨d', s, hd, hblank⟩ := hclause.exists_cons
        obtain rfl : d = d' := by
          rw [hy] at hd
          exact (List.cons.inj hd).1
        obtain rfl := hquote ⟨d, by simp [hz], hblank⟩
        have hmem : '"' ∈ d :: z := by
          have hend : (d :: z).getLast? = some '"' := by
            rw [← List.getLast?_append_of_ne_nil core (List.cons_ne_nil d z), ← hz, hfront]
            simp
          exact List.mem_of_getLast? hend
        exact (hclause.not_mem (by decide) (by decide) (hy ▸ List.mem_append_left y hmem)).elim
  refine ⟨blanks, more, null, filler, ?_, hblanks, hfiller, hends, ?_, ?_⟩
  · rw [← hcut]
    simp
  · simpa using hlast
  · rw [hcut]
    simpa using hc

section Item

variable {blanks more null filler : Text}

/-- The text of the column is its item less the blanks and commas at the end. -/
theorem IsItem.dropEnd_eq (h : IsItem p blanks more null filler) (hp : WellFormed p) :
    dropEnd isFiller (blanks ++ (p ++ more ++ null) ++ filler) = blanks ++ (p ++ more ++ null) := by
  obtain ⟨front, e, he⟩ := (p ++ more ++ null).eq_nil_or_concat'.resolve_left (by simp [hp.ne_nil])
  have hlast : isFiller e = false := h.last e (by simp [he])
  have hnil : dropEnd isFiller filler = [] := List.rdropWhile_eq_nil_iff.mpr h.areFiller
  rw [he, ← List.append_assoc, List.append_assoc, List.singleton_append,
    dropEnd_append_of_not hlast, hnil]

/-- It begins behind the first blanks. -/
theorem IsItem.trimStart_eq (h : IsItem p blanks more null filler) (hp : WellFormed p) :
    trimStart (blanks ++ (p ++ more ++ null)) = p ++ more ++ null := by
  refine trimStart_append h.areBlank ?_
  rw [List.append_assoc]
  exact head?_isBlank_append hp _

theorem IsItem.takeWhile_eq (h : IsItem p blanks more null filler) (hp : WellFormed p) :
    (blanks ++ (p ++ more ++ null)).takeWhile isBlank = blanks := by
  have hcut := Statement.takeWhile_append_trimStart (blanks ++ (p ++ more ++ null))
  rw [h.trimStart_eq hp] at hcut
  exact List.append_cancel_right hcut

/-- The item with a clause in it. -/
def withClause (clause item : Text) : Text :=
  let text := dropEnd isFiller item
  let null := (nullClause? false (trimStart text)).getD []
  text.takeWhile isBlank ++ (trimStart text).take ((trimStart text).length - null.length) ++
    ' ' :: clause ++ null ++ item.drop text.length

/-- The clause comes behind what the item says of the column, but for its null clause. -/
theorem withClause_eq (hp : WellFormed p) (h : IsItem p blanks more null filler) (clause : Text) :
    withClause clause (blanks ++ (p ++ more ++ null) ++ filler) =
      blanks ++ (p ++ more ++ ' ' :: clause ++ null) ++ filler := by
  obtain ⟨core, hcore, hends⟩ := exists_endsInNull (p ++ more ++ null)
  obtain ⟨-, hnull⟩ := h.endsInNull.unique hends hcore
  have hlength : (p ++ more ++ null).length - null.length = (p ++ more).length := by
    rw [List.length_append, Nat.add_sub_cancel]
  simp only [withClause, h.dropEnd_eq hp, h.trimStart_eq hp, h.takeWhile_eq hp, ← hnull, hlength]
  rw [List.take_left, List.drop_left]
  simp

end Item

end SchemaDump.Column
