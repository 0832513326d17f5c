import SchemaDump.Proofs.Creations
import SchemaDump.Proofs.Endings
import SchemaDump.Proofs.Prefixes

/-! Headings of attachable statements. Their optional words could be taken for names, and names for
these words. Where the names are none of these words, each is read as what it is. -/
namespace SchemaDump

open Text Reading Identifier

variable {α β : Type} {w v : String} {ws : List String} {front gap t s u rest : Text}

namespace Text

variable {c : Char}

theorem startsBare_of_capital (hA : 'A' ≤ capital c) (hZ : capital c ≤ 'Z') :
    startsBare c = true := by
  have hlower : ∀ n < 123, 97 ≤ n → startsBare (Char.ofNat n) = true := by decide
  have hupper : ∀ n < 91, 65 ≤ n → startsBare (Char.ofNat n) = true := by decide
  have hspecial : ∀ d ∈ ['\u017F', '\u0130', '\u0131', '\u212A'], startsBare d = true :=
    List.all_eq_true.mp (by decide +kernel)
  rw [capital] at hA hZ
  split_ifs at hA hZ with hletter hs hi hk
  · have ha : 97 ≤ c.toNat := hletter.1
    have hz : c.toNat ≤ 122 := hletter.2
    rw [← Char.ofNat_toNat c]
    exact hlower c.toNat (by omega) ha
  · exact hs ▸ hspecial _ (by decide)
  · obtain rfl | rfl := hi
    · exact hspecial _ (by decide)
    · exact hspecial _ (by decide)
  · exact hk ▸ hspecial _ (by decide)
  · have ha : 65 ≤ c.toNat := hA
    have hz : c.toNat ≤ 90 := hZ
    rw [← Char.ofNat_toNat c]
    exact hupper c.toNat (by omega) ha

end Text

/-- Capital letters, at least one. -/
def IsKeyword (w : String) : Prop := w.toList ≠ [] ∧ ∀ k ∈ w.toList, 'A' ≤ k ∧ k ≤ 'Z'

instance (w : String) : Decidable (IsKeyword w) :=
  @instDecidableAnd _ _ inferInstance (List.decidableBAll _ w.toList)

namespace IsKeyword

theorem isBlank (hw : IsKeyword w) : w.toList.any Text.isBlank = false := by
  have hupper : ∀ n < 91, 65 ≤ n → Text.isBlank (Char.ofNat n) = false := by decide
  refine List.any_eq_false.mpr fun k hk => ?_
  have ha : 65 ≤ k.toNat := (hw.2 k hk).1
  have hz : k.toNat ≤ 90 := (hw.2 k hk).2
  have hblank := hupper k.toNat (by omega) ha
  rw [Char.ofNat_toNat] at hblank
  simp [hblank]

/-- A keyword is an identifier, too. -/
theorem wellFormed (hw : IsKeyword w) (h : front.map capital = w.toList) : WellFormed front := by
  have hstart : ∀ c ∈ front, startsBare c = true := by
    intro c hc
    obtain ⟨hA, hZ⟩ := hw.2 (capital c) (h ▸ List.mem_map_of_mem hc)
    exact startsBare_of_capital hA hZ
  cases front with
  | nil => exact (hw.1 h.symm).elim
  | cons c front =>
    obtain ⟨hc, hfront⟩ := List.forall_mem_cons.mp hstart
    refine .bare hc fun d hd => ?_
    simp [continuesBare, (Bool.and_eq_true_iff.mp (hfront d hd)).1]

/-- A keyword with a blank behind it stands at the start of an identifier if it is all of it. -/
theorem eq_of_append (hw : IsKeyword w) (ht : WellFormed t) (hrest : Ends rest) {c : Char}
    (h : t ++ rest = front ++ c :: s) (hfront : front.map capital = w.toList)
    (hc : Text.isBlank c = true) : t = front := by
  have hletters : ∀ d ∈ front, isWord d = true := by
    intro d hd
    obtain ⟨hA, hZ⟩ := hw.2 (capital d) (hfront ▸ List.mem_map_of_mem hd)
    exact (Bool.and_eq_true_iff.mp (startsBare_of_capital hA hZ)).1
  exact eq_of_append_of_isBlank ht hrest h hletters (hw.wellFormed hfront).ne_nil hc

end IsKeyword

/-- A keyword with blanks behind it is not read where another identifier stands. -/
theorem bind_word_eq_nil {f : Unit → Reading β} (hw : IsKeyword w) (ht : WellFormed t)
    (hne : t.map capital ≠ w.toList) (hrest : Ends rest)
    (hf : ∀ u, blanks u = [] → f () u = []) : (word w >>= f) (t ++ rest) = [] := by
  refine List.flatMap_eq_nil_iff.mpr fun ⟨_, u⟩ hmem => hf u ?_
  refine List.eq_nil_iff_forall_not_mem.mpr fun ⟨_, more⟩ hblanks => hne ?_
  obtain ⟨a, htext, ha⟩ := afterWord_eq_some_iff.mp (mem_word.mp hmem)
  obtain ⟨c, more, rfl, hc, -⟩ := mem_blanks.mp hblanks
  rw [hw.eq_of_append ht hrest htext ha hc, ha]

theorem ends_of_isGap (hgap : IsGap gap) (s : Text) : Ends (gap ++ s) := by
  intro c hc
  rw [List.head?_append_of_ne_nil _ hgap.1] at hc
  have hblank := hgap.2 c (List.mem_of_head? hc)
  refine ⟨continuesBare_of_isBlank hblank, ?_⟩
  rintro rfl
  revert hblank
  decide

theorem head?_ne_dot_of_isGap (hgap : IsGap gap) (s : Text) : (gap ++ s).head? ≠ some '.' := by
  intro h
  rw [List.head?_append_of_ne_nil _ hgap.1] at h
  have hblank := hgap.2 '.' (List.mem_of_head? h)
  revert hblank
  decide

/-- What can be read instead of nothing is not, if the text does not go on after it. -/
theorem Reading.prefers_optional_bind {r : Reading α} {f : Option α → Reading β} {b : β}
    (hr : ∀ a u, (a, u) ∈ r s → f (some a) u = []) (h : Prefers (f none) s b rest) :
    Prefers (optional r >>= f) s b rest := by
  have hsome : ((r >>= fun a => pure (some a) : Reading (Option α)) s).flatMap
      (fun p => f p.1 p.2) = [] := by
    refine List.flatMap_eq_nil_iff.mpr fun ⟨o, u⟩ hmem => ?_
    obtain ⟨a, v, ha, ho⟩ := mem_bind.mp hmem
    obtain ⟨rfl, rfl⟩ := mem_pure.mp ho
    exact hr a _ ha
  have hnone : (optional r : Reading (Option α)) s =
      (r >>= fun a => pure (some a) : Reading (Option α)) s ++ [(none, s)] := rfl
  rw [Prefers, bind_apply, hnone, List.flatMap_append, hsome, List.nil_append,
    List.flatMap_singleton]
  exact h

theorem Reading.search_of_prefers {r : Reading α} {a : α} (h : Prefers r s a rest) :
    search r s = some ⟨a, s, rest⟩ := by
  obtain ⟨more, hmore⟩ := List.head?_eq_some_iff.mp h
  cases s <;> simp [search, hmore]

/-- Texts that pass these, one after the other, with blanks between them. -/
inductive Spaced : List (Text → Prop) → Text → Prop
  | single {p : Text → Prop} {s : Text} : p s → Spaced [p] s
  | cons {p : Text → Prop} {ps : List (Text → Prop)} {front gap s : Text} : p front → IsGap gap →
      Spaced ps s → Spaced (p :: ps) (front ++ gap ++ s)

namespace Spaced

variable {p q : Text → Prop} {ps : List (Text → Prop)}

theorem eq_single (h : Spaced [p] s) : p s := by
  cases h with
  | single h => exact h
  | cons _ _ hnil => cases hnil

theorem uncons (h : Spaced (p :: q :: ps) s) : ∃ a gap b,
    s = a ++ (gap ++ b) ∧ p a ∧ IsGap gap ∧ Spaced (q :: ps) b := by
  cases h with
  | @cons _ _ a gap b ha hgap hb => exact ⟨a, gap, b, List.append_assoc .., ha, hgap, hb⟩

theorem exists_start (h : Spaced (p :: ps) s) : ∃ a b, s = a ++ b ∧ p a := by
  cases h with
  | single h => exact ⟨s, [], (List.append_nil s).symm, h⟩
  | @cons _ _ a gap b h _ _ => exact ⟨a, gap ++ b, List.append_assoc .., h⟩

/-- What begins with a word begins with no blank. -/
theorem head?_isBlank (h : Spaced (Spells (w :: ws) :: ps) s) (hw : IsKeyword w) :
    s.head?.any isBlank = false := by
  obtain ⟨a, b, rfl, ha⟩ := h.exists_start
  exact ha.head?_isBlank hw.1 hw.isBlank b

end Spaced

/-- One word after the other. -/
theorem Spells.exists_bind (h : Spells (w :: v :: ws) front) (hv : IsKeyword v) :
    ∃ b, Spells (v :: ws) b ∧ ∀ (f : Reading β) s x rest, Prefers f (b ++ s) x rest →
      Prefers (do word w; blanks; f) (front ++ s) x rest := by
  obtain ⟨a, gap, b, rfl, ha, hgap, hb⟩ := h.uncons
  refine ⟨b, hb, fun f s x rest hf => ?_⟩
  rw [List.append_assoc, List.append_assoc]
  refine (prefers_word ha _).bind ((prefers_blanks hgap ?_).bind hf)
  exact hb.head?_isBlank hv.1 hv.isBlank s

/-- The last word, and what follows. -/
theorem Spells.bind {f : Reading β} {x : β} (h : Spells [w] front) (hgap : IsGap gap)
    (hs : s.head?.any isBlank = false) (hf : Prefers f s x rest) :
    Prefers (do word w; blanks; f) (front ++ (gap ++ s)) x rest :=
  (prefers_word h.map_capital _).bind ((prefers_blanks hgap hs).bind hf)

namespace Heading

/-- An optional word after another one, before what is not that word. -/
theorem bind_maybe {f : Reading β} {x : β} {opt : List String} (hopt : opt ∈ [[], [v]])
    (h : Spells (w :: opt) front) (hv : IsKeyword v) (hgap : IsGap gap)
    (hs : s.head?.any isBlank = false)
    (hmissing : (do word v; blanks : Reading Unit) s = []) (hf : Prefers f s x rest) :
    Prefers (do word w; blanks; maybe v; f) (front ++ (gap ++ s)) x rest := by
  simp only [List.mem_cons, List.not_mem_nil, or_false] at hopt
  obtain rfl | rfl := hopt
  · have hmaybe : Prefers (maybe v) s () s := (prefers_none hmissing).bind prefers_pure
    exact h.bind hgap hs (hmaybe.bind hf)
  · obtain ⟨b, hb, hread⟩ := h.exists_bind hv
    refine hread _ _ _ _ (Prefers.bind (a := ()) (u := s) ?_ hf)
    have hword : Prefers (do word v; blanks) (b ++ (gap ++ s)) () s :=
      (prefers_word hb.map_capital _).bind (prefers_blanks hgap hs)
    exact hword.optional.bind prefers_pure

end Heading

namespace Identifier

/-- An identifier that is none of the words that may be missing before a name. -/
structure IsUnreserved (t : Text) : Prop where
  wellFormed : WellFormed t
  notWord : ∀ w ∈ ["ONLY", "ON", "COLUMN"], t.map capital ≠ w.toList

theorem head?_isBlank_append (ht : WellFormed t) (rest : Text) :
    (t ++ rest).head?.any isBlank = false := by
  rw [List.head?_append_of_ne_nil _ ht.ne_nil, ht.head?_isBlank]

theorem isBlank_eq_false_of_bare (ht : WellFormed t) (hbare : '"' ∉ t) :
    ∀ c ∈ t, isBlank c = false := by
  have hcontinues : ∀ c, continuesBare c = true → isBlank c = false := by
    intro c hc
    by_contra hb
    rw [continuesBare_of_isBlank (by simpa using hb)] at hc
    cases hc
  cases ht with
  | @bare c s hc hs =>
    refine List.forall_mem_cons.mpr ⟨hcontinues c ?_, fun d hd => hcontinues d (hs d hd)⟩
    simp [continuesBare, (Bool.and_eq_true_iff.mp hc).1]
  | quoted hs => exact (hbare List.mem_cons_self).elim

end Identifier

namespace QualifiedName

variable {q : QualifiedName}

/-- Both names are none of the words that may be missing before them. -/
structure IsUnreserved (q : QualifiedName) : Prop where
  schema : ∀ s ∈ q.schema, Identifier.IsUnreserved s
  name : Identifier.IsUnreserved q.name

theorem IsUnreserved.wellFormed (h : q.IsUnreserved) : q.WellFormed :=
  ⟨fun s hs => (h.schema s hs).wellFormed, h.name.wellFormed⟩

/-- A name with its schema begins with one of the two. -/
theorem exists_start (q : QualifiedName) (hrest : Ends rest) :
    ∃ t more, q.text ++ rest = t ++ more ∧ (t ∈ q.schema ∨ t = q.name) ∧ Ends more := by
  obtain ⟨_ | schema, name⟩ := q
  · exact ⟨name, rest, rfl, Or.inr rfl, hrest⟩
  · exact ⟨schema, '.' :: (name ++ rest), List.append_assoc .., Or.inl rfl, ends_dot _⟩

theorem head?_isBlank (hq : q.WellFormed) (hrest : Ends rest) :
    (q.text ++ rest).head?.any isBlank = false := by
  obtain ⟨t, more, htext, ht, -⟩ := q.exists_start hrest
  rw [htext]
  obtain ht | rfl := ht
  · exact head?_isBlank_append (hq.schema t ht) more
  · exact head?_isBlank_append hq.name more

/-- Names without quotes have no blanks. -/
theorem isBlank_eq_false (hq : q.WellFormed) (hbare : '"' ∉ q.text) :
    ∀ c ∈ q.text, isBlank c = false := by
  obtain ⟨_ | schema, name⟩ := q
  · exact isBlank_eq_false_of_bare hq.name hbare
  · have htext : text ⟨some schema, name⟩ = schema ++ '.' :: name := rfl
    rw [htext, List.mem_append, List.mem_cons, not_or, not_or] at hbare
    rw [htext]
    intro c hc
    simp only [List.mem_append, List.mem_cons] at hc
    obtain hc | rfl | hc := hc
    · exact isBlank_eq_false_of_bare (hq.schema schema rfl) hbare.1 c hc
    · decide
    · exact isBlank_eq_false_of_bare hq.name hbare.2.2 c hc

/-- None of these words is read where the name stands. -/
theorem bind_word_eq_nil {f : Unit → Reading β} (hq : q.IsUnreserved)
    (hw : w ∈ ["ONLY", "ON", "COLUMN"]) (hrest : Ends rest)
    (hf : ∀ u, blanks u = [] → f () u = []) : (word w >>= f) (q.text ++ rest) = [] := by
  have hkeyword : IsKeyword w := by
    have hall : ∀ w ∈ ["ONLY", "ON", "COLUMN"], IsKeyword w := by decide
    exact hall w hw
  obtain ⟨t, more, htext, ht, hmore⟩ := q.exists_start hrest
  have hunreserved : Identifier.IsUnreserved t := by
    obtain ht | rfl := ht
    · exact hq.schema t ht
    · exact hq.name
  rw [htext]
  exact SchemaDump.bind_word_eq_nil hkeyword hunreserved.wellFormed
    (hunreserved.notWord w hw) hmore hf

end QualifiedName

namespace Heading

variable {only : List String} {table : QualifiedName}

/-- The table that is altered. -/
theorem prefers_alteredTable (honly : only ∈ [[], ["ONLY"]])
    (hfront : Spells ("ALTER" :: "TABLE" :: only) front) (hgap : IsGap gap)
    (htable : table.IsUnreserved) (hrest : Ends rest) (hdot : rest.head? ≠ some '.') :
    Prefers alteredTable (front ++ (gap ++ (table.text ++ rest))) table rest := by
  have hread := QualifiedName.prefers_qualifiedName htable.wellFormed hrest hdot
  obtain ⟨b, hb, halter⟩ := hfront.exists_bind (by decide)
  refine halter _ _ _ _ (bind_maybe honly hb (by decide) hgap ?_ ?_ hread)
  · exact QualifiedName.head?_isBlank htable.wellFormed hrest
  · exact QualifiedName.bind_word_eq_nil htable (by decide) hrest fun _ => id

theorem exists_alteredTable {p : Text → Prop} {ps : List (Text → Prop)}
    (honly : only ∈ [[], ["ONLY"]]) (htable : table.IsUnreserved)
    (h : Spaced (Spells ("ALTER" :: "TABLE" :: only) :: Eq table.text :: p :: ps) s) :
    ∃ gap b, IsGap gap ∧ Spaced (p :: ps) b ∧ Prefers alteredTable s table (gap ++ b) := by
  obtain ⟨words, gap, t, rfl, hwords, hgap, ht⟩ := h.uncons
  obtain ⟨_, gap', b, rfl, rfl, hgap', hb⟩ := ht.uncons
  refine ⟨gap', b, hgap', hb, ?_⟩
  exact prefers_alteredTable honly hwords hgap htable (ends_of_isGap hgap' b)
    (head?_ne_dot_of_isGap hgap' b)

/-- `GENERATED ALWAYS` or `GENERATED BY DEFAULT`. -/
theorem exists_generation {mode : List String} (hmode : mode ∈ [["ALWAYS"], ["BY", "DEFAULT"]])
    (hv : IsKeyword v) (h : Spells ("GENERATED" :: (mode ++ v :: ws)) front) :
    ∃ b, Spells (v :: ws) b ∧ ∀ (f : Reading β) s x rest, Prefers f (b ++ s) x rest →
      Prefers (do word "GENERATED"; blanks
                  word "ALWAYS" <|> (do word "BY"; blanks; word "DEFAULT")
                  blanks; f) (front ++ s) x rest := by
  have hstart : ∀ b s, Spells (v :: ws) b → (b ++ s).head?.any isBlank = false :=
    fun b s hb => hb.head?_isBlank hv.1 hv.isBlank s
  simp only [List.mem_cons, List.not_mem_nil, or_false] at hmode
  obtain rfl | rfl := hmode
  · obtain ⟨b, hb, hgenerated⟩ := h.exists_bind (by decide)
    obtain ⟨a, gap, c, rfl, ha, hgap, hc⟩ := hb.uncons
    refine ⟨c, hc, fun f s x rest hf => hgenerated _ s x rest ?_⟩
    rw [List.append_assoc, List.append_assoc]
    exact (prefers_word ha _).orElse.bind ((prefers_blanks hgap (hstart c s hc)).bind hf)
  · obtain ⟨b, hb, hgenerated⟩ := h.exists_bind (by decide)
    obtain ⟨b', hb', hby⟩ := hb.exists_bind (by decide)
    obtain ⟨a, gap, c, rfl, ha, hgap, hc⟩ := hb'.uncons
    have hother := hb.word_eq_nil (v := "ALWAYS") (by decide) (by decide) (by decide)
    refine ⟨c, hc, fun f s x rest hf => hgenerated _ s x rest ?_⟩
    have hdefault := hby (word "DEFAULT") s () (gap ++ (c ++ s))
    rw [List.append_assoc, List.append_assoc] at hdefault
    refine (prefers_orElse (hother s) (hdefault (prefers_word ha _))).bind ?_
    exact (prefers_blanks hgap (hstart c s hc)).bind hf

theorem endsList_append (s : Text) : endsList (s ++ ");".toList) = true := by
  have happend : s ++ ");".toList = (s ++ [')']) ++ ';' :: [] := by simp
  have hcut : splitLast ';' (s ++ ");".toList) = some (s ++ [')'], [';']) := by
    rw [happend, splitLast_append List.not_mem_nil]
  have htrim : trimEnd (s ++ [')']) = s ++ [')'] :=
    trimEnd_append_of_not_isBlank (by decide) s []
  rw [endsList, hcut]
  change decide ((trimEnd (s ++ [')'])).getLast? = some ')') = true
  simp [htrim]

/-- `CREATE INDEX` or `CREATE UNIQUE INDEX`. -/
theorem exists_indexWords {unique : List String} (hunique : unique ∈ [[], ["UNIQUE"]])
    (h : Spells ("CREATE" :: (unique ++ ["INDEX"])) front) :
    ∃ b, Spells ["INDEX"] b ∧ ∀ (f : Reading β) s x rest, Prefers f (b ++ s) x rest →
      Prefers (do word "CREATE"; blanks; maybe "UNIQUE"; f) (front ++ s) x rest := by
  simp only [List.mem_cons, List.not_mem_nil, or_false] at hunique
  obtain ⟨b, hb, hcreate⟩ : ∃ b, Spells (unique ++ ["INDEX"]) b ∧
      ∀ (f : Reading β) s x rest, Prefers f (b ++ s) x rest →
        Prefers (do word "CREATE"; blanks; f) (front ++ s) x rest := by
    obtain rfl | rfl := hunique
    · exact h.exists_bind (by decide)
    · exact h.exists_bind (by decide)
  obtain ⟨b', hb', hmaybe⟩ :=
    exists_prefers_maybe hb hunique (by decide) (by decide) (by decide) (by decide)
  exact ⟨b', hb', fun f s x rest hf => hcreate _ s x rest ((hmaybe s).bind hf)⟩

/-- The word `ON` is not read a second time, after it has been taken for a name. -/
theorem exists_on (honly : only ∈ [[], ["ONLY"]]) (htable : table.IsUnreserved)
    (hrest : Ends rest) (h : Spaced [Spells ("ON" :: only), Eq (table.text ++ rest)] s) :
    ∃ on gap u, s = on ++ (gap ++ u) ∧ on.map capital = "ON".toList ∧ IsGap gap ∧
      u.head?.any isBlank = false ∧ ∀ f : Reading β, (do word "ON"; blanks; f) u = [] := by
  obtain ⟨words, gap, _, rfl, hwords, hgap, ht⟩ := h.uncons
  obtain rfl := ht.eq_single
  simp only [List.mem_cons, List.not_mem_nil, or_false] at honly
  obtain rfl | rfl := honly
  · refine ⟨words, gap, _, rfl, hwords.map_capital, hgap, ?_, fun f => ?_⟩
    · exact QualifiedName.head?_isBlank htable.wellFormed hrest
    · exact QualifiedName.bind_word_eq_nil htable (by decide) hrest fun _ => bind_eq_nil
  · obtain ⟨on, gap', b, rfl, hon, hgap', hb⟩ := hwords.uncons
    refine ⟨on, gap', b ++ (gap ++ (table.text ++ rest)), by simp, hon, hgap', ?_, fun f => ?_⟩
    · exact hb.head?_isBlank (by decide) (by decide) _
    · have hb' := hb.map_capital
      have hne : b.map capital ≠ "ON".toList := by
        rw [hb']
        decide
      exact SchemaDump.bind_word_eq_nil (by decide) (IsKeyword.wellFormed (by decide) hb') hne
        (ends_of_isGap hgap _) fun _ => bind_eq_nil

/-- The name of an index, or that there is none. -/
theorem prefers_indexName {name : Option Text} {f : Option Text → Reading β} {x : β} {u : Text}
    (hname : ∀ n ∈ name, WellFormed n)
    (honly : only ∈ [[], ["ONLY"]]) (htable : table.IsUnreserved) (hrest : Ends rest)
    (h : Spaced (name.toList.map Eq ++ [Spells ("ON" :: only), Eq (table.text ++ rest)]) s)
    (hf : ∀ t, Spaced [Spells ("ON" :: only), Eq (table.text ++ rest)] t →
      Prefers (do word "ON"; blanks; f name) t x u) :
    Prefers (do let name ← optional (do let name ← identifier; blanks; return name)
                word "ON"; blanks; f name) s x u := by
  cases name with
  | none =>
    refine prefers_optional_bind (fun a u hmem => ?_) (hf s h)
    obtain ⟨on, gap, u', rfl, hon, hgap, hu', hnil⟩ :=
      exists_on (β := β) honly htable hrest h
    have hidentifier := identifier_append (IsKeyword.wellFormed (w := "ON") (by decide) hon)
      (ends_of_isGap hgap u')
    obtain ⟨n, v, hn, hblanks⟩ := mem_bind.mp hmem
    rw [hidentifier, List.mem_singleton, Prod.mk.injEq] at hn
    obtain ⟨rfl, rfl⟩ := hn
    obtain ⟨_, v', hv, hpure⟩ := mem_bind.mp hblanks
    rw [blanks_append hgap hu', List.mem_singleton, Prod.mk.injEq] at hv
    obtain ⟨-, rfl⟩ := hv
    obtain ⟨rfl, rfl⟩ := mem_pure.mp hpure
    exact hnil _
  | some n =>
    obtain ⟨_, gap, t, rfl, rfl, hgap, ht⟩ := h.uncons
    have hread : Prefers (do let name ← identifier; blanks; return name) (n ++ (gap ++ t)) n t := by
      have hidentifier := identifier_append (hname n rfl) (ends_of_isGap hgap t)
      refine Prefers.bind (congrArg List.head? hidentifier) ?_
      exact (prefers_blanks hgap (ht.head?_isBlank (by decide))).bind prefers_pure
    exact hread.optional.bind (hf t ht)

end Heading

open Heading

/-- `ALTER TABLE table ADD CONSTRAINT name body;`. -/
def AddsConstraint (table : QualifiedName) (name body s : Text) : Prop :=
  ∃ only ∈ [[], ["ONLY"]], Spaced
    [Spells ("ALTER" :: "TABLE" :: only), Eq table.text, Spells ["ADD", "CONSTRAINT"],
      Eq name, Eq (body ++ [';'])] s

/-- `CREATE INDEX name ON table rest`, with or without a name. -/
def CreatesIndex (name : Option Text) (table : QualifiedName) (rest s : Text) : Prop :=
  ∃ unique ∈ [[], ["UNIQUE"]], ∃ only ∈ [[], ["ONLY"]], Spaced
    (Spells ("CREATE" :: (unique ++ ["INDEX"])) :: name.toList.map Eq ++
      [Spells ("ON" :: only), Eq (table.text ++ rest)]) s

/-- `(SEQUENCE NAME sequence options);`. -/
def NamesSequence (sequence : QualifiedName) (options s : Text) : Prop :=
  ∃ gap t, s = '(' :: (gap ++ t) ∧ (∀ c ∈ gap, isBlank c = true) ∧ Spaced
    [Spells ["SEQUENCE", "NAME"], Eq (sequence.text ++ (options ++ ");".toList))] t

/-- `ALTER TABLE table ALTER COLUMN column ADD GENERATED ALWAYS AS IDENTITY`, or `BY DEFAULT`, and
the sequence. -/
def AddsIdentity (table : QualifiedName) (column : Text) (sequence : QualifiedName)
    (options s : Text) : Prop :=
  ∃ only ∈ [[], ["ONLY"]], ∃ columnWord ∈ [[], ["COLUMN"]],
    ∃ mode ∈ [["ALWAYS"], ["BY", "DEFAULT"]], Spaced
      [Spells ("ALTER" :: "TABLE" :: only), Eq table.text, Spells ("ALTER" :: columnWord),
        Eq column, Spells ("ADD" :: "GENERATED" :: (mode ++ ["AS", "IDENTITY"])),
        NamesSequence sequence options] s

variable {only : List String} {table sequence : QualifiedName} {name column body options : Text}

theorem AddsConstraint.exists_prefers (h : AddsConstraint table name body s)
    (htable : table.IsUnreserved) (hname : WellFormed name) : ∃ rest, Prefers ofConstraint s
      { schema := table.schemaOrPublic, name := some name, table := some table.name } rest := by
  obtain ⟨only, honly, h⟩ := h
  obtain ⟨gap, t, hgap, ht, hread⟩ := exists_alteredTable honly htable h
  have hadd := ht.head?_isBlank (by decide)
  obtain ⟨adding, gap₁, u, rfl, hadding, hgap₁, hu⟩ := ht.uncons
  obtain ⟨_, gap₂, rest, rfl, rfl, hgap₂, -⟩ := hu.uncons
  obtain ⟨b, hb, hwords⟩ := hadding.exists_bind (by decide)
  have hidentifier := identifier_append hname (ends_of_isGap hgap₂ rest)
  refine ⟨gap₂ ++ rest, hread.bind ((prefers_blanks hgap hadd).bind (hwords _ _ _ _ ?_))⟩
  refine hb.bind hgap₁ (head?_isBlank_append hname _) ?_
  exact Prefers.bind (congrArg List.head? hidentifier) prefers_pure

theorem CreatesIndex.prefers {name : Option Text} (h : CreatesIndex name table rest s)
    (htable : table.IsUnreserved) (hname : ∀ n ∈ name, WellFormed n) (hrest : Ends rest)
    (hdot : rest.head? ≠ some '.') : Prefers ofIndex s
      { schema := table.schemaOrPublic, name := name, table := some table.name } rest := by
  obtain ⟨unique, hunique, only, honly, h⟩ := h
  have hread := QualifiedName.prefers_qualifiedName htable.wellFormed hrest hdot
  obtain ⟨words, gap, t, rfl, hwords, hgap, ht⟩ : ∃ a gap b, s = a ++ (gap ++ b) ∧
      Spells ("CREATE" :: (unique ++ ["INDEX"])) a ∧ IsGap gap ∧
      Spaced (name.toList.map Eq ++ [Spells ("ON" :: only), Eq (table.text ++ rest)]) b := by
    cases name <;> exact h.uncons
  obtain ⟨b, hb, hindex⟩ := exists_indexWords hunique hwords
  have hstart : t.head?.any isBlank = false := by
    cases name with
    | none => exact ht.head?_isBlank (by decide)
    | some n =>
      obtain ⟨_, u, rfl, rfl⟩ := ht.exists_start
      exact head?_isBlank_append (hname n rfl) u
  refine hindex _ _ _ _ (hb.bind hgap hstart ?_)
  refine prefers_indexName hname honly htable hrest ht fun u hu => ?_
  obtain ⟨on, gap', _, rfl, hon, hgap', htext⟩ := hu.uncons
  obtain rfl := htext.eq_single
  refine bind_maybe honly hon (by decide) hgap' ?_ ?_ (hread.bind prefers_pure)
  · exact QualifiedName.head?_isBlank htable.wellFormed hrest
  · exact QualifiedName.bind_word_eq_nil htable (by decide) hrest fun _ => id

/-- The column, and the words behind it up to `ADD`. -/
theorem AddsIdentity.exists_columnAddition (h : AddsIdentity table column sequence options s)
    (htable : table.IsUnreserved) (hcolumn : Identifier.IsUnreserved column) :
    ∃ mode ∈ [["ALWAYS"], ["BY", "DEFAULT"]], ∃ b,
      Spaced [Spells ("GENERATED" :: (mode ++ ["AS", "IDENTITY"])),
        NamesSequence sequence options] b ∧
      Prefers columnAddition s (table, column) b := by
  obtain ⟨only, honly, columnWord, hword, mode, hmode, h⟩ := h
  obtain ⟨gap, t, hgap, ht, hread⟩ := exists_alteredTable honly htable h
  have halter := ht.head?_isBlank (by decide)
  obtain ⟨altering, gap₁, u, rfl, haltering, hgap₁, hu⟩ := ht.uncons
  obtain ⟨_, gap₂, v, rfl, rfl, hgap₂, hv⟩ := hu.uncons
  have hadd := hv.head?_isBlank (by decide)
  obtain ⟨adding, gap₃, r, rfl, hadding, hgap₃, hr⟩ := hv.uncons
  obtain ⟨b, hb, hwords⟩ := hadding.exists_bind (by decide)
  have hends := ends_of_isGap hgap₂ (adding ++ (gap₃ ++ r))
  have hidentifier := identifier_append hcolumn.wellFormed hends
  have hspaced := Spaced.cons hb hgap₃ hr
  refine ⟨mode, hmode, b ++ (gap₃ ++ r), by simpa using hspaced, ?_⟩
  refine hread.bind ((prefers_blanks hgap halter).bind ?_)
  refine bind_maybe hword haltering (by decide) hgap₁ ?_ ?_ ?_
  · exact head?_isBlank_append hcolumn.wellFormed _
  · exact SchemaDump.bind_word_eq_nil (by decide) hcolumn.wellFormed
      (hcolumn.notWord _ (by decide)) hends fun _ => id
  · refine Prefers.bind (congrArg List.head? hidentifier) ?_
    exact (prefers_blanks hgap₂ hadd).bind (hwords _ _ _ _ prefers_pure)

theorem NamesSequence.prefers {x : β} {f : QualifiedName → Reading β}
    (h : NamesSequence sequence options s)
    (hsequence : sequence.WellFormed) (hoptions : Ends options) (hdot : options.head? ≠ some '.')
    (hf : Prefers (f sequence) (options ++ ");".toList) x rest) :
    Prefers (do char '('; Reading.gap; word "SEQUENCE"; blanks; word "NAME"; blanks
                let q ← qualifiedNameBefore endsList
                f q) s x rest := by
  obtain ⟨pad, t, rfl, hpad, ht⟩ := h
  have hends : Ends (options ++ ");".toList) ∧ (options ++ ");".toList).head? ≠ some '.' := by
    cases options with
    | nil =>
      refine ⟨?_, by decide⟩
      rintro c ⟨⟩
      decide
    | cons c options => exact ⟨hoptions, hdot⟩
  have hread := QualifiedName.prefers_qualifiedNameBefore hsequence hends.1 hends.2
    (endsList_append options)
  have hchar : Prefers (char '(') ('(' :: (pad ++ t)) () (pad ++ t) := rfl
  have hpadding : Prefers Reading.gap (pad ++ t) () t := by
    rw [Prefers, Reading.gap, trimStart_append hpad (ht.head?_isBlank (by decide))]
    rfl
  obtain ⟨words, gap, _, rfl, hwords, hgap, htext⟩ := ht.uncons
  obtain rfl := htext.eq_single
  obtain ⟨b, hb, hnaming⟩ := hwords.exists_bind (β := β) (by decide)
  refine hchar.bind (hpadding.bind (hnaming _ _ _ _ (hb.bind hgap ?_ (hread.bind hf))))
  exact QualifiedName.head?_isBlank hsequence hends.1

theorem AddsIdentity.prefers (h : AddsIdentity table column sequence options s)
    (htable : table.IsUnreserved) (hcolumn : Identifier.IsUnreserved column)
    (hsequence : sequence.WellFormed) (hoptions : Ends options)
    (hdot : options.head? ≠ some '.') : Prefers ofSequence s
      { schema := table.schemaOrPublic
        name := some (qualify sequence.schemaOrPublic sequence.name)
        table := some table.name
        column := some column } (options ++ ");".toList) := by
  obtain ⟨mode, hmode, b, hb, hread⟩ := h.exists_columnAddition htable hcolumn
  obtain ⟨words, gap, t, rfl, hwords, hgap, ht⟩ := hb.uncons
  obtain ⟨b, hb, hgenerated⟩ := exists_generation hmode (by decide) hwords
  obtain ⟨b', hb', has⟩ := hb.exists_bind (by decide)
  have hstart : t.head?.any isBlank = false := by
    obtain ⟨_, _, rfl, -⟩ := ht.eq_single
    rfl
  refine hread.bind (hgenerated _ _ _ _ (has _ _ _ _ (hb'.bind hgap hstart ?_)))
  exact ht.eq_single.prefers hsequence hoptions hdot prefers_pure

/-- A text can be cut before its first blank in one way only. -/
theorem append_inj_of_isBlank {a b : Text} (ha : ∀ c ∈ a, isBlank c = false)
    (hb : ∀ c ∈ b, isBlank c = false) (hs : s.head?.any isBlank = true)
    (ht : t.head?.any isBlank = true) (h : a ++ s = b ++ t) : a = b ∧ s = t := by
  have hfront : ∀ {a s : Text}, (∀ c ∈ a, isBlank c = false) → s.head?.any isBlank = true →
      (a ++ s).takeWhile (!isBlank ·) = a := by
    intro a s ha hs
    rw [List.takeWhile_append_of_pos fun c hc => by simp [ha c hc]]
    cases s with
    | nil => cases hs
    | cons c s =>
      have hc : isBlank c = true := hs
      simp [hc]
  have hab : a = b := by rw [← hfront ha hs, h, hfront hb ht]
  subst hab
  exact ⟨rfl, List.append_cancel_left h⟩

namespace Clause

/-- Of an added constraint nothing begins in a text without blanks, unless it ends in `ADD` and the
next word is `CONSTRAINT`. -/
theorem search_addedConstraint_append {a : Text} (ha : ∀ c ∈ a, isBlank c = false)
    (hgap : IsGap gap) (hs : s.head?.any isBlank = false)
    (hnone : ∀ z, z <:+ a → z.map capital = "ADD".toList → word "CONSTRAINT" s = []) :
    addedConstraint.search (a ++ (gap ++ s)) = addedConstraint.search s := by
  rw [← List.append_assoc]
  refine search_append fun x y hxy hy => List.eq_nil_iff_forall_not_mem.mpr fun ⟨v, u⟩ hmem => ?_
  obtain ⟨_, u₁, hadd, hmem⟩ := mem_bind.mp hmem
  obtain ⟨_, u₂, hblanks, hmem⟩ := mem_bind.mp hmem
  obtain ⟨_, u₃, hconstraint, -⟩ := mem_bind.mp hmem
  obtain ⟨add, htext, hcapital⟩ := afterWord_eq_some_iff.mp (mem_word.mp hadd)
  obtain ⟨c, more, rfl, hc, -⟩ := mem_blanks.mp hblanks
  have hletters : ∀ c ∈ add, isBlank c = false :=
    isBlank_eq_false_of_map_capital (w := "ADD") (by decide) hcapital
  obtain ⟨z, rfl, rfl⟩ | ⟨z, rfl, rfl⟩ := List.append_eq_append_iff.mp hxy
  -- a keyword cannot begin within blanks
  · cases y with
    | nil => exact hy rfl
    | cons d y =>
      cases add with
      | nil => cases hcapital
      | cons e add =>
        obtain ⟨rfl, -⟩ := List.cons.inj htext
        have hd := hletters d List.mem_cons_self
        rw [hgap.2 d (by simp)] at hd
        cases hd
  · rw [List.append_assoc] at htext
    have hblank : (gap ++ s).head?.any isBlank = true := by
      rw [List.head?_append_of_ne_nil _ hgap.1]
      cases gap with
      | nil => exact (hgap.1 rfl).elim
      | cons d gap => exact hgap.2 d List.mem_cons_self
    obtain ⟨rfl, hrest⟩ := append_inj_of_isBlank (fun c hc => ha c (List.mem_append_right x hc))
      hletters hblank (by simpa using hc) htext
    rw [← hrest, blanks_append hgap hs, List.mem_singleton, Prod.mk.injEq] at hblanks
    rw [hblanks.2, hnone z (List.suffix_append x z) hcapital] at hconstraint
    cases hconstraint

/-- None of the words before the table is `ADD`. -/
theorem search_addedConstraint_word {a : Text} (ha : a.map capital = w.toList) (hw : IsKeyword w)
    (hadd : ¬ "ADD".toList <:+ w.toList) (hgap : IsGap gap) (hs : s.head?.any isBlank = false) :
    addedConstraint.search (a ++ (gap ++ s)) = addedConstraint.search s := by
  refine search_addedConstraint_append (isBlank_eq_false_of_map_capital hw.isBlank ha) hgap hs ?_
  intro z hz hcapital
  exact (hadd (ha ▸ hcapital ▸ hz.map capital)).elim

theorem search_addedConstraint_words (h : Spells ws front)
    (hws : ∀ w ∈ ws, IsKeyword w ∧ ¬ "ADD".toList <:+ w.toList) (hgap : IsGap gap)
    (hs : s.head?.any isBlank = false) :
    addedConstraint.search (front ++ (gap ++ s)) = addedConstraint.search s := by
  induction h with
  | single ha =>
    obtain ⟨hw, hadd⟩ := hws _ List.mem_cons_self
    exact search_addedConstraint_word ha hw hadd hgap hs
  | @cons w ws a gap' b ha hgap' hb ih =>
    obtain ⟨⟨hw, hadd⟩, hws⟩ := List.forall_mem_cons.mp hws
    have hstart : (b ++ (gap ++ s)).head?.any isBlank = false := by
      cases ws with
      | nil => cases hb
      | cons v ws =>
        have hv := (hws v List.mem_cons_self).1
        exact hb.head?_isBlank hv.1 hv.isBlank _
    rw [List.append_assoc, List.append_assoc, search_addedConstraint_word ha hw hadd hgap' hstart]
    exact ih hws

/-- The body goes on to the last semicolon. -/
theorem prefers_body {body : Text} (hgap : IsGap gap) (hbody : body ≠ [])
    (hstart : body.head?.any isBlank = false) :
    Prefers Clause.body (gap ++ (body ++ [';'])) body [';'] := by
  obtain ⟨hne, hblank⟩ := hgap
  have hcut : splitLast ';' (body ++ [';']) = some (body, [';']) :=
    splitLast_append List.not_mem_nil
  have hhead : (body ++ [';']).head?.any isBlank = false := by
    rwa [List.head?_append_of_ne_nil _ hbody]
  have hdrop : (gap ++ (body ++ [';'])).dropWhile isBlank = body ++ [';'] :=
    trimStart_append hblank hhead
  have htake : (gap ++ (body ++ [';'])).takeWhile isBlank = gap := by
    have hall := List.takeWhile_append_dropWhile (p := isBlank) (l := gap ++ (body ++ [';']))
    rw [hdrop] at hall
    exact List.append_cancel_right hall
  rw [Prefers, Clause.body, htake, hdrop, hcut]
  cases gap with
  | nil => exact (hne rfl).elim
  | cons c gap =>
    cases body with
    | nil => exact (hbody rfl).elim
    | cons d body => rfl

/-- Of an added constraint nothing begins before its `ADD`. -/
theorem exists_search_eq {table : QualifiedName} {name body : Text}
    (h : AddsConstraint table name body s) (htable : table.WellFormed) (hbare : '"' ∉ table.text)
    (hname : WellFormed name) (hbody : body ≠ []) (hstart : body.head?.any isBlank = false) :
    ∃ t, addedConstraint.search s = addedConstraint.search t ∧
      Prefers addedConstraint t (name, body) [';'] := by
  obtain ⟨only, honly, h⟩ := h
  obtain ⟨words, gap, t, rfl, hwords, hgap, ht⟩ := h.uncons
  obtain ⟨_, gap₁, u, rfl, rfl, hgap₁, hu⟩ := ht.uncons
  have hadd := hu.head?_isBlank (by decide)
  obtain ⟨adding, gap₂, v, rfl, hadding, hgap₂, hv⟩ := hu.uncons
  obtain ⟨_, gap₃, _, rfl, rfl, hgap₃, hlast⟩ := hv.uncons
  obtain rfl := hlast.eq_single
  have hkeywords : ∀ w ∈ "ALTER" :: "TABLE" :: only, IsKeyword w ∧ ¬ "ADD".toList <:+ w.toList := by
    have hall : ∀ only ∈ [[], ["ONLY"]], ∀ w ∈ "ALTER" :: "TABLE" :: only,
        IsKeyword w ∧ ¬ "ADD".toList <:+ w.toList := by decide
    exact hall only honly
  refine ⟨adding ++ (gap₂ ++ (name ++ (gap₃ ++ (body ++ [';'])))), ?_, ?_⟩
  · have hfirst := fun u => QualifiedName.head?_isBlank htable (ends_of_isGap hgap₁ u)
    have hother := hadding.word_eq_nil (v := "CONSTRAINT") (by decide) (by decide) (by decide)
    rw [search_addedConstraint_words hwords hkeywords hgap (hfirst _)]
    exact search_addedConstraint_append (QualifiedName.isBlank_eq_false htable hbare) hgap₁ hadd
      fun _ _ _ => hother _
  · obtain ⟨b, hb, hread⟩ := hadding.exists_bind (by decide)
    have hidentifier := identifier_append hname (ends_of_isGap hgap₃ (body ++ [';']))
    refine hread _ _ _ _ (hb.bind hgap₂ (head?_isBlank_append hname _) ?_)
    refine Prefers.bind (congrArg List.head? hidentifier) ?_
    exact (prefers_body hgap₃ hbody hstart).bind prefers_pure

/-- The clause of an added constraint is made of the name and the body, whatever semicolons it
has. -/
theorem constraint?_addsConstraint {table : QualifiedName} {name body : Text}
    (h : AddsConstraint table name body s) (htable : table.WellFormed) (hbare : '"' ∉ table.text)
    (hname : WellFormed name) (hbody : body ≠ []) (hstart : body.head?.any isBlank = false) :
    constraint? s = some ("CONSTRAINT ".toList ++ name ++ ' ' :: body) := by
  obtain ⟨t, hsearch, hread⟩ := exists_search_eq h htable hbare hname hbody hstart
  rw [constraint?, hsearch, search_of_prefers hread]
  rfl

end Clause
/-- No kind that is tried before this one has a heading in the text. -/
def Kind.IsFirst (k : Kind) (s : Text) : Prop :=
  ∀ l ∈ byPriority.takeWhile (· ≠ k), l.heading.search s = none

namespace Classified

variable {k : Kind} {h : Heading}

/-- The statement as a whole, of this kind. -/
def whole (k : Kind) (h : Heading) (s : Text) : Classified :=
  { kind := k, heading := h, definition := s, residual := [] }

/-- A heading that begins with the statement decides on it. -/
theorem ofStatement?_of_prefers (hread : Prefers k.heading s h rest) (hfirst : k.IsFirst s) :
    ofStatement? s = some (whole k h s) := by
  obtain ⟨more, hmore⟩ := List.head?_eq_some_iff.mp hread
  obtain ⟨earlier, later, hkinds, hearlier⟩ : ∃ earlier later, Kind.byPriority =
      earlier ++ k :: later ∧ earlier = Kind.byPriority.takeWhile (· ≠ k) := by
    cases k <;> exact ⟨_, _, rfl, rfl⟩
  refine ofStatement?_of_decides ⟨rfl, ⟨rest, more, hmore⟩, ?_, earlier, later, hkinds, ?_⟩
  · intro x y _ hlt
    exact (Nat.not_lt_zero _ hlt).elim
  · intro l hl
    exact search_eq_none_iff.mp (hfirst l (hearlier ▸ hl))

/-- A statement that adds a constraint, an index or an identity is recognised as this and no more:
as a whole, of the table and under the name that it gives. The clause of a constraint is made of its
name and body. No heading may stand in the statement of a kind that is tried before. -/
theorem ofStatement?_attachable {table : QualifiedName} (htable : table.IsUnreserved) (s : Text) :
    (∀ name body, WellFormed name → body ≠ [] → body.head?.any isBlank = false →
      AddsConstraint table name body s → Kind.constraint.IsFirst s →
      ofStatement? s = some (whole .constraint
        { schema := table.schemaOrPublic, name := some name, table := some table.name } s) ∧
      ('"' ∉ table.text →
        Clause.constraint? s = some ("CONSTRAINT ".toList ++ name ++ ' ' :: body))) ∧
    (∀ name rest, (∀ n ∈ name, WellFormed n) → Ends rest → rest.head? ≠ some '.' →
      CreatesIndex name table rest s → Kind.index.IsFirst s →
      ofStatement? s = some (whole .index
        { schema := table.schemaOrPublic, name := name, table := some table.name } s)) ∧
    ∀ column sequence options, Identifier.IsUnreserved column → sequence.WellFormed →
      Ends options → options.head? ≠ some '.' →
      AddsIdentity table column sequence options s → Kind.sequence.IsFirst s →
      ofStatement? s = some (whole .sequence
        { schema := table.schemaOrPublic
          name := some (qualify sequence.schemaOrPublic sequence.name)
          table := some table.name
          column := some column } s) := by
  refine ⟨?_, ?_, ?_⟩
  · intro name body hname hbody hstart hadds hfirst
    obtain ⟨rest, hread⟩ := hadds.exists_prefers htable hname
    refine ⟨ofStatement?_of_prefers hread hfirst, fun hbare => ?_⟩
    exact Clause.constraint?_addsConstraint hadds htable.wellFormed hbare hname hbody hstart
  · intro name rest hname hrest hdot hcreates hfirst
    exact ofStatement?_of_prefers (hcreates.prefers htable hname hrest hdot) hfirst
  · intro column sequence options hcolumn hsequence hoptions hdot hadds hfirst
    exact ofStatement?_of_prefers (hadds.prefers htable hcolumn hsequence hoptions hdot) hfirst

theorem ofStatement?_attachable_optional_words :
    let table : QualifiedName := { schema := some "on1".toList, name := "only$".toList }
    let sequence : QualifiedName := { schema := none, name := "\"a\"\"b\"".toList }
    let space := " ".toList
    let s := "ALTER TABLE Only".toList ++ space ++ (table.text ++ "\n".toList ++
      ("ADD CONSTRAINT".toList ++ space ++
        ("\"n;\"".toList ++ space ++ ("CHECK (x <> ';')".toList ++ [';']))))
    let t := "CREATE INDEX".toList ++ space ++
      ("ON Only".toList ++ space ++ (table.text ++ "(x)".toList))
    let u := "ALTER TABLE".toList ++ space ++ (table.text ++ space ++
      ("ALTER".toList ++ space ++ ("columns".toList ++ space ++
        ("ADD GENERATED BY DEFAULT AS IDENTITY".toList ++ space ++ ('(' :: (space ++
          ("SEQUENCE NAME".toList ++ space ++
            (sequence.text ++ (" CACHE 1".toList ++ ");".toList)))))))))
    (AddsConstraint table "\"n;\"".toList "CHECK (x <> ';')".toList s ∧
      ofStatement? s = some (whole .constraint
        { schema := "on1".toList, name := some "\"n;\"".toList, table := some "only$".toList } s) ∧
      Clause.constraint? s = some "CONSTRAINT \"n;\" CHECK (x <> ';')".toList) ∧
    (CreatesIndex none table "(x)".toList t ∧ ofStatement? t = some (whole .index
      { schema := "on1".toList, name := none, table := some "only$".toList } t)) ∧
    AddsIdentity table "columns".toList sequence " CACHE 1".toList u ∧
      ofStatement? u = some (whole .sequence
        { schema := "on1".toList
          name := some "public.\"a\"\"b\"".toList
          table := some "only$".toList
          column := some "columns".toList } u) := by
  intro table sequence space s t u
  have hspace : IsGap space := ⟨by decide, List.all_eq_true.mp (by decide)⟩
  have hline : IsGap "\n".toList := ⟨by decide, List.all_eq_true.mp (by decide)⟩
  have hword : ∀ w ∈ ["ALTER", "TABLE", "ADD", "CONSTRAINT", "CREATE", "INDEX", "ON", "GENERATED",
      "BY", "DEFAULT", "AS", "IDENTITY", "SEQUENCE", "NAME"], w.toList.map capital = w.toList := by
    decide
  have honly : "Only".toList.map capital = "ONLY".toList := by decide
  have hbare : ∀ t ∈ ["on1".toList, "only$".toList, "columns".toList],
      Identifier.IsUnreserved t := by
    simp only [List.forall_mem_cons]
    refine ⟨⟨.bare ?_ (List.all_eq_true.mp ?_), ?_⟩, ⟨.bare ?_ (List.all_eq_true.mp ?_), ?_⟩,
      ⟨.bare ?_ (List.all_eq_true.mp ?_), ?_⟩, nofun⟩
    all_goals decide +kernel
  have htable : table.IsUnreserved :=
    { schema := by
        rintro _ ⟨⟩
        exact hbare _ (by decide)
      name := hbare _ (by decide) }
  have hsequence : sequence.WellFormed :=
    { schema := nofun
      name := .quoted (s := "a\"b".toList) (by decide) }
  have hname : WellFormed "\"n;\"".toList := .quoted (s := "n;".toList) (by decide)
  have hs : AddsConstraint table "\"n;\"".toList "CHECK (x <> ';')".toList s := by
    have hwords : Spells ["ALTER", "TABLE", "ONLY"] "ALTER TABLE Only".toList :=
      .cons (hword "ALTER" (by decide)) hspace <| .cons (hword "TABLE" (by decide)) hspace <|
        .single honly
    have hadding : Spells ["ADD", "CONSTRAINT"] "ADD CONSTRAINT".toList :=
      .cons (hword "ADD" (by decide)) hspace <| .single (hword "CONSTRAINT" (by decide))
    exact ⟨["ONLY"], by decide, .cons hwords hspace <| .cons rfl hline <| .cons hadding hspace <|
      .cons rfl hspace <| .single rfl⟩
  have ht : CreatesIndex none table "(x)".toList t := by
    have hcreate : Spells ["CREATE", "INDEX"] "CREATE INDEX".toList :=
      .cons (hword "CREATE" (by decide)) hspace <| .single (hword "INDEX" (by decide))
    have hon : Spells ["ON", "ONLY"] "ON Only".toList :=
      .cons (hword "ON" (by decide)) hspace <| .single honly
    exact ⟨[], by decide, ["ONLY"], by decide, .cons hcreate hspace <| .cons hon hspace <|
      .single rfl⟩
  have hu : AddsIdentity table "columns".toList sequence " CACHE 1".toList u := by
    have hwords : Spells ["ALTER", "TABLE"] "ALTER TABLE".toList :=
      .cons (hword "ALTER" (by decide)) hspace <| .single (hword "TABLE" (by decide))
    have halter : Spells ["ALTER"] "ALTER".toList := .single (hword "ALTER" (by decide))
    have hadding : Spells ["ADD", "GENERATED", "BY", "DEFAULT", "AS", "IDENTITY"]
        "ADD GENERATED BY DEFAULT AS IDENTITY".toList :=
      .cons (hword "ADD" (by decide)) hspace <| .cons (hword "GENERATED" (by decide)) hspace <|
        .cons (hword "BY" (by decide)) hspace <| .cons (hword "DEFAULT" (by decide)) hspace <|
          .cons (hword "AS" (by decide)) hspace <| .single (hword "IDENTITY" (by decide))
    have hnaming : Spells ["SEQUENCE", "NAME"] "SEQUENCE NAME".toList :=
      .cons (hword "SEQUENCE" (by decide)) hspace <| .single (hword "NAME" (by decide))
    exact ⟨[], by decide, [], by decide, ["BY", "DEFAULT"], by decide,
      .cons hwords hspace <| .cons rfl hspace <| .cons halter hspace <| .cons rfl hspace <|
        .cons hadding hspace <| .single
          ⟨space, _, rfl, hspace.2, .cons hnaming hspace (.single rfl)⟩⟩
  obtain ⟨hconstraint, -, -⟩ := ofStatement?_attachable htable s
  obtain ⟨-, hindex, -⟩ := ofStatement?_attachable htable t
  obtain ⟨-, -, hidentity⟩ := ofStatement?_attachable htable u
  obtain ⟨hclassified, hclause⟩ := hconstraint _ _ hname (by decide) (by decide) hs
    (by rw [Kind.IsFirst]; decide +kernel)
  refine ⟨⟨hs, hclassified, hclause (by decide)⟩, ⟨ht, ?_⟩, hu, ?_⟩
  · refine hindex _ _ nofun ?_ (by decide) ht (by rw [Kind.IsFirst]; decide +kernel)
    rintro c ⟨⟩
    decide
  · refine hidentity _ _ _ (hbare _ (by decide)) hsequence ?_ (by decide) hu
      (by rw [Kind.IsFirst]; decide +kernel)
    rintro c ⟨⟩
    decide

end Classified
end SchemaDump
