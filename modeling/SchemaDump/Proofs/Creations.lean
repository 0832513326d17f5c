import SchemaDump.Proofs.Definitions
import SchemaDump.Proofs.Names

/-! Headings that create an object under a name with its schema. Where the words and the name are
written as they may be, the heading is recognised with just this name, whatever follows it. -/
namespace SchemaDump

open Text Identifier

namespace Text

variable {c : Char}

/-- What counts as a letter in a keyword is one. -/
theorem isWord_of_isWord_capital (h : isWord (capital c) = true) : isWord c = true := by
  have hascii : ∀ n < 123, 97 ≤ n → isWord (Char.ofNat n) = true := by decide
  have hspecial : ∀ d ∈ ['\u017F', '\u0130', '\u0131', '\u212A'], isWord d = true :=
    List.all_eq_true.mp (by decide +kernel)
  rw [capital] at h
  split_ifs at h with hletter hs hi hk
  · have ha : 97 ≤ c.toNat := hletter.1
    have hz : c.toNat ≤ 122 := hletter.2
    rw [← Char.ofNat_toNat c]
    exact hascii c.toNat (by omega) ha
  · exact hs ▸ hspecial _ (by decide)
  · obtain rfl | rfl := hi
    · exact hspecial _ (by decide)
    · exact hspecial _ (by decide)
  · exact hk ▸ hspecial _ (by decide)
  · exact h

end Text

namespace Reading

variable {α β : Type} {r t : Reading α} {f : α → Reading β} {a : α} {b : β} {s u rest : Text}

/-- The preferred reading of `s` gives `a` and leaves `rest`. -/
def Prefers (r : Reading α) (s : Text) (a : α) (rest : Text) : Prop :=
  (r s).head? = some (a, rest)

theorem bind_apply (r : Reading α) (f : α → Reading β) (s : Text) :
    (r >>= f) s = (r s).flatMap fun p => f p.1 p.2 := rfl

theorem orElse_apply (r t : Reading α) (s : Text) : (r <|> t) s = r s ++ t s := rfl

theorem prefers_pure : Prefers (pure a) s a s := rfl

theorem Prefers.bind (hr : Prefers r s a u) (hf : Prefers (f a) u b rest) :
    Prefers (r >>= f) s b rest := by
  obtain ⟨more, hmore⟩ := List.head?_eq_some_iff.mp hr
  obtain ⟨others, hothers⟩ := List.head?_eq_some_iff.mp hf
  rw [Prefers, bind_apply, hmore, List.flatMap_cons, hothers]
  rfl

theorem bind_eq_nil (h : r s = []) : (r >>= f) s = [] := by
  rw [bind_apply, h, List.flatMap_nil]

theorem Prefers.orElse (h : Prefers r s a rest) : Prefers (r <|> t) s a rest := by
  obtain ⟨more, hmore⟩ := List.head?_eq_some_iff.mp h
  rw [Prefers, orElse_apply, hmore]
  rfl

theorem prefers_orElse (hr : r s = []) (h : Prefers t s a rest) : Prefers (r <|> t) s a rest := by
  rw [Prefers, orElse_apply, hr]
  exact h

theorem Prefers.optional (h : Prefers r s a rest) : Prefers (optional r) s (some a) rest :=
  (h.bind (f := fun a => pure (some a)) prefers_pure).orElse

theorem prefers_none (h : r s = []) : Prefers (optional r) s none s :=
  prefers_orElse (bind_eq_nil (f := fun a => pure (some a)) h) prefers_pure

/-- A word in other letters is not read. -/
theorem word_eq_nil {w v : String} {front : Text} (hfront : front.map capital = v.toList)
    (hv : v.toList ≠ []) (hne : w.toList.head? ≠ v.toList.head?) (hw : w.toList ≠ []) (s : Text) :
    word w (front ++ s) = [] := by
  refine List.eq_nil_iff_forall_not_mem.mpr fun ⟨_, rest⟩ hmem => hne ?_
  obtain ⟨start, hs, hstart⟩ := afterWord_eq_some_iff.mp (mem_word.mp hmem)
  have hfront' : front ≠ [] := by
    rintro rfl
    exact hv hfront.symm
  have hstart' : start ≠ [] := by
    rintro rfl
    exact hw hstart.symm
  rw [← hfront, ← hstart, List.head?_map, List.head?_map]
  have hhead := congrArg List.head? hs
  rw [List.head?_append_of_ne_nil _ hfront', List.head?_append_of_ne_nil _ hstart'] at hhead
  rw [hhead]

end Reading

open Reading

/-- Blanks, at least one. -/
def IsGap (gap : Text) : Prop := gap ≠ [] ∧ ∀ c ∈ gap, isBlank c = true

/-- Words in any letter case, with blanks between them. -/
inductive Spells : List String → Text → Prop
  | single {w : String} {front : Text} : front.map capital = w.toList → Spells [w] front
  | cons {w : String} {ws : List String} {front gap t : Text} : front.map capital = w.toList →
      IsGap gap → Spells ws t → Spells (w :: ws) (front ++ gap ++ t)

variable {w : String} {ws us vs : List String} {front gap s rest : Text}

theorem prefers_word (h : front.map capital = w.toList) (s : Text) :
    Prefers (word w) (front ++ s) () s := by
  have hafter : afterWord w.toList (front ++ s) = some s :=
    afterWord_eq_some_iff.mpr ⟨front, rfl, h⟩
  rw [Prefers, word, hafter]
  rfl

theorem trimStart_append (hgap : ∀ c ∈ gap, isBlank c = true) (hs : s.head?.any isBlank = false) :
    trimStart (gap ++ s) = s := by
  rw [trimStart, List.dropWhile_append_of_pos hgap]
  cases s with
  | nil => rfl
  | cons d s => exact List.dropWhile_cons_of_neg (by simpa using hs)

theorem blanks_append (hgap : IsGap gap) (hs : s.head?.any isBlank = false) :
    blanks (gap ++ s) = [((), s)] := by
  obtain ⟨hne, hblank⟩ := hgap
  cases gap with
  | nil => exact (hne rfl).elim
  | cons c gap =>
    obtain ⟨hc, hgap⟩ := List.forall_mem_cons.mp hblank
    rw [List.cons_append, blanks, if_pos hc, trimStart_append hgap hs]

theorem exists_of_mem_blanks {u : Unit} (h : (u, rest) ∈ blanks s) :
    ∃ gap, s = gap ++ rest ∧ IsGap gap := by
  obtain ⟨c, v, rfl, hc, rfl⟩ := mem_blanks.mp h
  refine ⟨c :: v.takeWhile isBlank, ?_, List.cons_ne_nil c _, ?_⟩
  · rw [List.cons_append, Statement.takeWhile_append_trimStart]
  · exact List.forall_mem_cons.mpr ⟨hc, fun _ => List.mem_takeWhile_imp⟩

theorem prefers_blanks (hgap : IsGap gap) (hs : s.head?.any isBlank = false) :
    Prefers blanks (gap ++ s) () s := by
  rw [Prefers, blanks_append hgap hs]
  rfl

namespace Spells

theorem map_capital (h : Spells [w] front) : front.map capital = w.toList := by
  cases h with
  | single h => exact h
  | cons _ _ hnil => cases hnil

theorem exists_start (h : Spells (w :: ws) front) :
    ∃ start t, front = start ++ t ∧ start.map capital = w.toList := by
  cases h with
  | single h => exact ⟨front, [], (List.append_nil front).symm, h⟩
  | @cons _ _ start gap t h _ _ => exact ⟨start, gap ++ t, List.append_assoc .., h⟩

theorem uncons {v : String} (h : Spells (w :: v :: ws) front) : ∃ a gap b,
    front = a ++ (gap ++ b) ∧ a.map capital = w.toList ∧ IsGap gap ∧ Spells (v :: ws) b := by
  cases h with
  | @cons _ _ a gap b ha hgap hb => exact ⟨a, gap, b, List.append_assoc .., ha, hgap, hb⟩

/-- Words of which the first stand apart from the others by blanks. -/
theorem exists_append (h : Spells (us ++ vs) front) (hus : us ≠ []) (hvs : vs ≠ []) :
    ∃ a gap b, front = a ++ (gap ++ b) ∧ Spells us a ∧ IsGap gap ∧ Spells vs b := by
  induction us generalizing front with
  | nil => exact (hus rfl).elim
  | cons w us ih =>
    cases us with
    | nil =>
      cases h with
      | single h => exact (hvs rfl).elim
      | @cons _ _ a gap b h hgap hb =>
        exact ⟨a, gap, b, List.append_assoc .., .single h, hgap, hb⟩
    | cons v us =>
      cases h with
      | @cons _ _ a gap t h hgap ht =>
        obtain ⟨a', gap', b, rfl, ha', hgap', hb⟩ := ih ht (List.cons_ne_nil v us)
        exact ⟨a ++ gap ++ a', gap', b, by simp, .cons h hgap ha', hgap', hb⟩

/-- The first word begins with a letter, which is no blank. -/
theorem head?_isBlank (h : Spells (w :: ws) front) (hw : w.toList ≠ [])
    (hletters : w.toList.any isBlank = false) (s : Text) :
    (front ++ s).head?.any isBlank = false := by
  obtain ⟨start, t, rfl, hstart⟩ := h.exists_start
  cases start with
  | nil => exact (hw hstart.symm).elim
  | cons c start => simpa using isBlank_eq_false_of_map_capital hletters hstart c List.mem_cons_self

/-- Another word is not read. -/
theorem word_eq_nil {v : String} (h : Spells (w :: ws) front) (hw : w.toList ≠ [])
    (hv : v.toList ≠ []) (hne : v.toList.head? ≠ w.toList.head?) (s : Text) :
    word v (front ++ s) = [] := by
  obtain ⟨start, t, rfl, hstart⟩ := h.exists_start
  rw [List.append_assoc]
  exact Reading.word_eq_nil hstart hw hne hv (t ++ s)

end Spells

namespace Heading

/-- Words that may be missing, each with blanks behind it, before the word `w`. -/
theorem exists_prefers_optional {r : Reading Unit} (h : Spells (us ++ w :: ws) front)
    (hw : w.toList ≠ []) (hletters : w.toList.any isBlank = false)
    (hmissing : ∀ s, Spells (w :: ws) front → r (front ++ s) = [])
    (hread : ∀ a gap s, Spells us a → IsGap gap → s.head?.any isBlank = false →
      Prefers r (a ++ (gap ++ s)) () s) :
    ∃ front', Spells (w :: ws) front' ∧
      ∀ s, ∃ o, Prefers (optional r) (front ++ s) o (front' ++ s) := by
  by_cases hus : us = []
  · subst hus
    exact ⟨front, h, fun s => ⟨none, prefers_none (hmissing s h)⟩⟩
  · obtain ⟨a, gap, b, rfl, ha, hgap, hb⟩ := h.exists_append hus (List.cons_ne_nil w ws)
    refine ⟨b, hb, fun s => ⟨some (), Prefers.optional ?_⟩⟩
    have hs := hread a gap (b ++ s) ha hgap (hb.head?_isBlank hw hletters s)
    rwa [List.append_assoc, List.append_assoc]

theorem exists_prefers_maybe {v : String} (h : Spells (us ++ w :: ws) front)
    (hus : us = [] ∨ us = [v]) (hw : w.toList ≠ []) (hletters : w.toList.any isBlank = false)
    (hv : v.toList ≠ []) (hne : v.toList.head? ≠ w.toList.head?) :
    ∃ front', Spells (w :: ws) front' ∧ ∀ s, Prefers (maybe v) (front ++ s) () (front' ++ s) := by
  have hread : ∀ a gap s, Spells us a → IsGap gap → s.head?.any isBlank = false →
      Prefers (do word v; blanks) (a ++ (gap ++ s)) () s := by
    intro a gap s ha hgap hs
    obtain rfl | rfl := hus
    · cases ha
    · exact (prefers_word ha.map_capital _).bind (prefers_blanks hgap hs)
  obtain ⟨front', h', hoptional⟩ := exists_prefers_optional h hw hletters
    (fun s h => bind_eq_nil (h.word_eq_nil hw hv hne s)) hread
  refine ⟨front', h', fun s => ?_⟩
  obtain ⟨o, ho⟩ := hoptional s
  exact ho.bind prefers_pure

theorem exists_prefers_maybeReplacing (h : Spells (us ++ w :: ws) front)
    (hus : us = [] ∨ us = ["OR", "REPLACE"]) (hw : w.toList ≠ [])
    (hletters : w.toList.any isBlank = false) (hne : "OR".toList.head? ≠ w.toList.head?) :
    ∃ front', Spells (w :: ws) front' ∧
      ∀ s, Prefers maybeReplacing (front ++ s) () (front' ++ s) := by
  have hread : ∀ a gap s, Spells us a → IsGap gap → s.head?.any isBlank = false →
      Prefers (do word "OR"; blanks; word "REPLACE"; blanks) (a ++ (gap ++ s)) () s := by
    intro a gap s ha hgap hs
    obtain rfl | rfl := hus
    · cases ha
    · obtain ⟨a, gap', b, rfl, ha, hgap', hb⟩ := ha.uncons
      rw [List.append_assoc, List.append_assoc]
      refine (prefers_word ha _).bind ((prefers_blanks hgap' ?_).bind ?_)
      · exact hb.head?_isBlank (by decide) (by decide) _
      · exact (prefers_word hb.map_capital _).bind (prefers_blanks hgap hs)
  obtain ⟨front', h', hoptional⟩ := exists_prefers_optional h hw hletters
    (fun s h => bind_eq_nil (h.word_eq_nil hw (by decide) hne s)) hread
  refine ⟨front', h', fun s => ?_⟩
  obtain ⟨o, ho⟩ := hoptional s
  exact ho.bind prefers_pure

/-- A text that begins with a name, and not with the word `IF` and a blank. -/
structure BeginsName (s : Text) : Prop where
  noBlank : s.head?.any isBlank = false
  noIf : ∀ a c rest, s = a ++ c :: rest → a.map capital = "IF".toList → isBlank c = false

/-- `IF NOT EXISTS` is read where it stands, and where it does not, if nothing is taken for it. -/
theorem prefers_tableWords_of_missing (us vs : List String) (h : Spells (us ++ "TABLE" :: vs) front)
    (hus : us = [] ∨ us = ["UNLOGGED"]) (hvs : vs = [] ∨ vs = ["IF", "NOT", "EXISTS"])
    (hmissing : (do blanks; word "IF"; blanks; word "NOT"; blanks; word "EXISTS" : Reading Unit) s =
      []) :
    Prefers tableWords (front ++ s) () s := by
  obtain ⟨front', h', hread⟩ :=
    exists_prefers_maybe h hus (by decide) (by decide) (by decide) (by decide)
  refine (hread _).bind ?_
  obtain rfl | rfl := hvs
  · exact (prefers_word h'.map_capital _).bind ((prefers_none hmissing).bind prefers_pure)
  · obtain ⟨a, gap₁, t, rfl, ha, hgap₁, ht⟩ := h'.uncons
    obtain ⟨b, gap₂, u, rfl, hb, hgap₂, hu⟩ := ht.uncons
    obtain ⟨c, gap₃, d, rfl, hc, hgap₃, hd⟩ := hu.uncons
    have hif := fun s => ht.head?_isBlank (by decide) (by decide) s
    have hnot := fun s => hu.head?_isBlank (by decide) (by decide) s
    have hexists := fun s => hd.head?_isBlank (by decide) (by decide) s
    simp only [List.append_assoc] at hif hnot ⊢
    refine (prefers_word ha _).bind ((Prefers.optional (a := ()) ?_).bind prefers_pure)
    refine (prefers_blanks hgap₁ (hif _)).bind ((prefers_word hb _).bind ?_)
    refine (prefers_blanks hgap₂ (hnot _)).bind ((prefers_word hc _).bind ?_)
    exact (prefers_blanks hgap₃ (hexists _)).bind (prefers_word hd.map_capital _)

/-- No name is taken for `IF NOT EXISTS`. -/
theorem prefers_tableWords (us vs : List String) (h : Spells (us ++ "TABLE" :: vs) front)
    (hus : us = [] ∨ us = ["UNLOGGED"]) (hvs : vs = [] ∨ vs = ["IF", "NOT", "EXISTS"])
    {gap : Text} (hgap : IsGap gap) (hs : BeginsName s) :
    Prefers tableWords (front ++ (gap ++ s)) () (gap ++ s) := by
  refine prefers_tableWords_of_missing us vs h hus hvs ?_
  rw [bind_apply, blanks_append hgap hs.noBlank, List.flatMap_singleton]
  refine List.eq_nil_iff_forall_not_mem.mpr fun ⟨_, rest⟩ hmem => ?_
  obtain ⟨_, u, hif, hmem⟩ := mem_bind.mp hmem
  obtain ⟨_, v, hblank, -⟩ := mem_bind.mp hmem
  obtain ⟨a, rfl, ha⟩ := afterWord_eq_some_iff.mp (mem_word.mp hif)
  obtain ⟨c, t, rfl, hc, -⟩ := mem_blanks.mp hblank
  rw [hs.noIf a c t rfl ha] at hc
  cases hc

theorem prefers_viewWords (us vs : List String) (h : Spells (us ++ (vs ++ ["VIEW"])) front)
    (hus : us = [] ∨ us = ["OR", "REPLACE"])
    (hvs : vs = [] ∨ vs = ["RECURSIVE"] ∨ vs = ["MATERIALIZED"]) :
    Prefers viewWords (front ++ s) () s := by
  have hread : ∀ a gap s, Spells vs a → IsGap gap → s.head?.any isBlank = false →
      Prefers (do word "RECURSIVE" <|> word "MATERIALIZED"; blanks) (a ++ (gap ++ s)) () s := by
    intro a gap s ha hgap hs
    obtain rfl | rfl | rfl := hvs
    · cases ha
    · exact (prefers_word ha.map_capital _).orElse.bind (prefers_blanks hgap hs)
    · have hother := ha.word_eq_nil (v := "RECURSIVE") (by decide) (by decide) (by decide)
      exact (prefers_orElse (hother _) (prefers_word ha.map_capital _)).bind
        (prefers_blanks hgap hs)
  obtain ⟨front₁, h₁, hreplacing⟩ : ∃ front', Spells (vs ++ ["VIEW"]) front' ∧
      ∀ s, Prefers maybeReplacing (front ++ s) () (front' ++ s) := by
    obtain rfl | rfl | rfl := hvs <;>
      exact exists_prefers_maybeReplacing h hus (by decide) (by decide) (by decide)
  have hmissing : ∀ s, Spells ["VIEW"] front₁ →
      (word "RECURSIVE" <|> word "MATERIALIZED" : Reading Unit) (front₁ ++ s) = [] := by
    intro s h
    rw [orElse_apply, h.word_eq_nil (by decide) (by decide) (by decide),
      h.word_eq_nil (by decide) (by decide) (by decide), List.append_nil]
  obtain ⟨front₂, h₂, hoptional⟩ := exists_prefers_optional h₁ (by decide) (by decide)
    (fun s h => bind_eq_nil (hmissing s h)) hread
  obtain ⟨o, ho⟩ := hoptional s
  exact (hreplacing s).bind (ho.bind (prefers_word h₂.map_capital s))

theorem prefers_replacingWord (us : List String) {v : String} (h : Spells (us ++ [v]) front)
    (hus : us = [] ∨ us = ["OR", "REPLACE"]) (hv : v.toList ≠ [])
    (hletters : v.toList.any isBlank = false) (hne : "OR".toList.head? ≠ v.toList.head?) :
    Prefers (do maybeReplacing; word v) (front ++ s) () s := by
  obtain ⟨front', h', hread⟩ := exists_prefers_maybeReplacing h hus hv hletters hne
  exact (hread s).bind (prefers_word h'.map_capital s)

end Heading

/-- The words between `CREATE` and the name of an object of this kind. -/
def Kind.wordings : Kind → List (List String)
  | .type => [["TYPE"]]
  | .domain => [["DOMAIN"]]
  | .function => [["FUNCTION"], ["OR", "REPLACE", "FUNCTION"]]
  | .procedure => [["PROCEDURE"], ["OR", "REPLACE", "PROCEDURE"]]
  | .table => [["TABLE"], ["UNLOGGED", "TABLE"], ["TABLE", "IF", "NOT", "EXISTS"],
      ["UNLOGGED", "TABLE", "IF", "NOT", "EXISTS"]]
  | .view => [["VIEW"], ["RECURSIVE", "VIEW"], ["MATERIALIZED", "VIEW"],
      ["OR", "REPLACE", "VIEW"], ["OR", "REPLACE", "RECURSIVE", "VIEW"],
      ["OR", "REPLACE", "MATERIALIZED", "VIEW"]]
  | _ => []

namespace QualifiedName

/-- The name as it is written. -/
def text (q : QualifiedName) : Text :=
  match q.schema with
  | some schema => qualify schema q.name
  | none => q.name

variable {q : QualifiedName}

theorem ends_dot (s : Text) : Ends ('.' :: s) := by
  intro c hc
  cases hc
  decide

/-- A name is read with its schema, and up to its end. -/
theorem prefers_qualifiedNameBefore {p : Text → Bool} (hq : q.WellFormed) (hrest : Ends rest)
    (hdot : rest.head? ≠ some '.') (hp : p rest = true) :
    Prefers (qualifiedNameBefore p) (q.text ++ rest) q rest := by
  have hread : Prefers (identifierBefore p) (q.name ++ rest) q.name rest :=
    congrArg List.head? (identifierBefore_append hq.name hrest hp)
  obtain ⟨_ | schema, name⟩ := q
  · refine prefers_orElse ?_ (hread.bind prefers_pure)
    have hchar : char '.' rest = [] :=
      List.eq_nil_iff_forall_not_mem.mpr fun ⟨_, t⟩ hmem => hdot (by rw [mem_char.mp hmem]; rfl)
    rw [bind_apply]
    exact (congrArg (List.flatMap _) (identifier_append hq.name hrest)).trans
      (by simp [bind_apply, hchar])
  · have hschema : Prefers identifier (schema ++ '.' :: (name ++ rest)) schema
        ('.' :: (name ++ rest)) :=
      congrArg List.head? (identifier_append (hq.schema schema rfl) (ends_dot _))
    have hchar : Prefers (char '.') ('.' :: (name ++ rest)) () (name ++ rest) := rfl
    have htext : text ⟨some schema, name⟩ ++ rest = schema ++ '.' :: (name ++ rest) :=
      List.append_assoc ..
    rw [htext]
    have hboth := hread.bind (f := fun n => pure (QualifiedName.mk (some schema) n)) prefers_pure
    exact (hschema.bind (hchar.bind hboth)).orElse

theorem prefers_qualifiedName (hq : q.WellFormed) (hrest : Ends rest)
    (hdot : rest.head? ≠ some '.') : Prefers qualifiedName (q.text ++ rest) q rest :=
  prefers_qualifiedNameBefore hq hrest hdot rfl

end QualifiedName

/-- A keyword is an identifier's text only if a blank ends both in the same place. -/
theorem eq_of_append_of_isBlank {t a more : Text} {c : Char} (ht : WellFormed t)
    (hrest : Ends rest) (h : t ++ rest = a ++ c :: more) (ha : ∀ d ∈ a, isWord d = true)
    (hne : a ≠ []) (hc : isBlank c = true) : t = a := by
  cases ht with
  | @bare d s hd hs =>
    have hword : ∀ e ∈ d :: s, continuesBare e = true := by
      refine List.forall_mem_cons.mpr ⟨?_, hs⟩
      simp [continuesBare, (Bool.and_eq_true_iff.mp hd).1]
    have hstop : rest.takeWhile continuesBare = [] := by
      cases rest with
      | nil => rfl
      | cons e rest => simp [(hrest e rfl).1]
    have hleft : (d :: s ++ rest).takeWhile continuesBare = d :: s := by
      rw [List.takeWhile_append_of_pos hword, hstop, List.append_nil]
    have hright : (a ++ c :: more).takeWhile continuesBare = a := by
      have ha' : ∀ d ∈ a, continuesBare d = true := fun d hd => by simp [continuesBare, ha d hd]
      rw [List.takeWhile_append_of_pos ha',
        List.takeWhile_cons_of_neg (by simp [continuesBare_of_isBlank hc]), List.append_nil]
    rw [← hleft, h, hright]
  | quoted hs =>
    cases a with
    | nil => exact (hne rfl).elim
    | cons d a =>
      obtain ⟨rfl, -⟩ := List.cons.inj h
      have hquote : isWord '"' = false := by decide
      rw [ha '"' List.mem_cons_self] at hquote
      cases hquote

theorem beginsName_append {t : Text} (ht : WellFormed t) (hrest : Ends rest)
    (hif : t.map capital = "IF".toList → rest.head?.any isBlank = false) :
    Heading.BeginsName (t ++ rest) where
  noBlank := by rw [List.head?_append_of_ne_nil _ ht.ne_nil, ht.head?_isBlank]
  noIf := by
    intro a c more h ha
    by_contra hc
    have hc : isBlank c = true := by simpa using hc
    have hword : ∀ d ∈ a, isWord d = true := by
      intro d hd
      refine isWord_of_isWord_capital ?_
      have hletters : ∀ k ∈ "IF".toList, isWord k = true := List.all_eq_true.mp (by decide)
      exact hletters _ (ha ▸ List.mem_map_of_mem hd)
    have hne : a ≠ [] := by
      rintro rfl
      cases ha
    obtain rfl := eq_of_append_of_isBlank ht hrest h hword hne hc
    have hblank := hif ha
    rw [List.append_cancel_left h] at hblank
    simp [hc] at hblank

theorem QualifiedName.beginsName {q : QualifiedName} (hq : q.WellFormed)
    (hif : q.name.map capital ≠ "IF".toList) (hrest : Ends rest) :
    Heading.BeginsName (q.text ++ rest) := by
  obtain ⟨_ | schema, name⟩ := q
  · exact beginsName_append hq.name hrest fun h => (hif h).elim
  · have htext : text ⟨some schema, name⟩ ++ rest = schema ++ '.' :: (name ++ rest) :=
      List.append_assoc ..
    rw [htext]
    exact beginsName_append (hq.schema schema rfl) (ends_dot _) fun _ => by simp; decide

namespace Kind

variable {k : Kind} {ws : List String} {words gap rest : Text} {q : QualifiedName}

theorem wordings_ne_nil (hws : ws ∈ k.wordings) : ws ≠ [] := by
  rintro rfl
  cases k <;> simp [wordings] at hws

theorem wordings_letters (hws : ws ∈ k.wordings) :
    ∀ w ∈ ws, w.toList ≠ [] ∧ w.toList.any isBlank = false := by
  have h : ∀ ws ∈ k.wordings, ∀ w ∈ ws, w.toList ≠ [] ∧ w.toList.any isBlank = false := by
    cases k <;> decide
  exact h ws hws

/-- The words of a creation are read up to the blanks before the name. -/
theorem exists_creation (hws : ws ∈ k.wordings) : ∃ what, k.heading = Heading.creation what ∧
    ∀ front gap s, Spells ws front → IsGap gap → Heading.BeginsName s →
      Prefers what (front ++ (gap ++ s)) () (gap ++ s) := by
  cases k with
  | type | domain =>
    obtain rfl := List.mem_singleton.mp hws
    exact ⟨_, rfl, fun front gap s h _ _ => prefers_word h.map_capital _⟩
  | function | procedure =>
    refine ⟨_, rfl, fun front gap s h _ _ => ?_⟩
    simp only [wordings, List.mem_cons, List.not_mem_nil, or_false] at hws
    obtain rfl | rfl := hws
    · exact Heading.prefers_replacingWord [] h (Or.inl rfl) (by decide) (by decide) (by decide)
    · exact Heading.prefers_replacingWord ["OR", "REPLACE"] h (Or.inr rfl) (by decide) (by decide)
        (by decide)
  | table =>
    refine ⟨_, rfl, fun front gap s h hgap hs => ?_⟩
    simp only [wordings, List.mem_cons, List.not_mem_nil, or_false] at hws
    obtain rfl | rfl | rfl | rfl := hws
    · exact Heading.prefers_tableWords [] [] h (Or.inl rfl) (Or.inl rfl) hgap hs
    · exact Heading.prefers_tableWords ["UNLOGGED"] [] h (Or.inr rfl) (Or.inl rfl) hgap hs
    · exact Heading.prefers_tableWords [] ["IF", "NOT", "EXISTS"] h (Or.inl rfl) (Or.inr rfl) hgap
        hs
    · exact Heading.prefers_tableWords ["UNLOGGED"] ["IF", "NOT", "EXISTS"] h (Or.inr rfl)
        (Or.inr rfl) hgap hs
  | view =>
    refine ⟨_, rfl, fun front gap s h _ _ => ?_⟩
    simp only [wordings, List.mem_cons, List.not_mem_nil, or_false] at hws
    obtain rfl | rfl | rfl | rfl | rfl | rfl := hws
    · exact Heading.prefers_viewWords [] [] h (by simp) (by simp)
    · exact Heading.prefers_viewWords [] ["RECURSIVE"] h (by simp) (by simp)
    · exact Heading.prefers_viewWords [] ["MATERIALIZED"] h (by simp) (by simp)
    · exact Heading.prefers_viewWords ["OR", "REPLACE"] [] h (by simp) (by simp)
    · exact Heading.prefers_viewWords ["OR", "REPLACE"] ["RECURSIVE"] h (by simp) (by simp)
    · exact Heading.prefers_viewWords ["OR", "REPLACE"] ["MATERIALIZED"] h (by simp) (by simp)
  | schema | extension | sequence | constraint | index => cases hws

theorem prefers_heading (hws : ws ∈ k.wordings) (hwords : Spells ("CREATE" :: ws) words)
    (hgap : IsGap gap) (hq : q.WellFormed) (hif : q.name.map capital ≠ "IF".toList)
    (hrest : Ends rest) (hdot : rest.head? ≠ some '.') :
    Prefers k.heading (words ++ (gap ++ (q.text ++ rest)))
      { schema := q.schemaOrPublic, name := some q.name } rest := by
  obtain ⟨what, hheading, hwhat⟩ := exists_creation hws
  have hname := QualifiedName.beginsName hq hif hrest
  have hread := QualifiedName.prefers_qualifiedName hq hrest hdot
  cases hwords with
  | single => exact (wordings_ne_nil hws rfl).elim
  | @cons _ _ create gap₀ front hcreate hgap₀ hfront =>
    have hstart : (front ++ (gap ++ (q.text ++ rest))).head?.any isBlank = false := by
      cases ws with
      | nil => exact (wordings_ne_nil hws rfl).elim
      | cons w ws =>
        obtain ⟨hw, hletters⟩ := wordings_letters hws w List.mem_cons_self
        exact hfront.head?_isBlank hw hletters _
    rw [hheading, List.append_assoc, List.append_assoc]
    refine (prefers_word hcreate _).bind ((prefers_blanks hgap₀ hstart).bind ?_)
    refine (hwhat front gap _ hfront hgap hname).bind ?_
    exact (prefers_blanks hgap hname.noBlank).bind (hread.bind prefers_pure)

end Kind

namespace Classified

/-- A statement that creates a type, domain, function, procedure, table or view is recognised as
this and no more: under the name that it gives, with the schema if there is one, as a whole, and
whatever follows the name. No heading may stand in it of a kind that is tried before. -/
theorem ofStatement?_creation {k : Kind} {ws : List String} {words gap rest : Text}
    {q : QualifiedName} (hws : ws ∈ k.wordings) (hwords : Spells ("CREATE" :: ws) words)
    (hgap : IsGap gap) (hq : q.WellFormed) (hif : q.name.map capital ≠ "IF".toList)
    (hrest : Ends rest) (hdot : rest.head? ≠ some '.')
    (hpriority : ∀ l ∈ Kind.byPriority.takeWhile (· ≠ k),
      l.heading.search (words ++ gap ++ q.text ++ rest) = none) :
    ofStatement? (words ++ gap ++ q.text ++ rest) = some
      { kind := k
        heading := { schema := q.schemaOrPublic, name := some q.name }
        definition := words ++ gap ++ q.text ++ rest
        residual := [] } := by
  have hread := Kind.prefers_heading hws hwords hgap hq hif hrest hdot
  simp only [List.append_assoc] at hpriority ⊢
  obtain ⟨more, hmore⟩ := List.head?_eq_some_iff.mp hread
  obtain ⟨earlier, later, hkinds, hearlier⟩ : ∃ earlier later, Kind.byPriority =
      earlier ++ k :: later ∧ earlier = Kind.byPriority.takeWhile (· ≠ k) := by
    cases k <;> exact ⟨_, _, rfl, rfl⟩
  refine ofStatement?_of_decides ⟨rfl, ⟨rest, more, hmore⟩, ?_, earlier, later, hkinds, ?_⟩
  · intro x y _ hlt
    simp at hlt
  · intro l hl
    exact search_eq_none_iff.mp (hpriority l (hearlier ▸ hl))

theorem ofStatement?_creation_quoted_view :
    let words := "create or\n REPLACE\tMaterialized view".toList
    let q : QualifiedName := { schema := some "\"a\"\"b\"".toList, name := "\"c.d e\"".toList }
    let rest := "(x) AS SELECT 1 -- CREATE INDEX ON t".toList
    let s := words ++ "  ".toList ++ q.text ++ rest
    Spells ["CREATE", "OR", "REPLACE", "MATERIALIZED", "VIEW"] words ∧ q.WellFormed ∧
      Ends rest ∧ rest.head? ≠ some '.' ∧ q.name.map capital ≠ "IF".toList ∧
      (∀ l ∈ Kind.byPriority.takeWhile (· ≠ Kind.view), l.heading.search s = none) ∧
      ofStatement? s = some
        { kind := .view
          heading := { schema := "\"a\"\"b\"".toList, name := some "\"c.d e\"".toList }
          definition := s
          residual := [] } := by
  intro words q rest s
  have hgap : ∀ gap ∈ [" ".toList, "  ".toList, "\t".toList, "\n ".toList],
      IsGap gap := by
    have hall : ∀ gap ∈ [" ".toList, "  ".toList, "\t".toList, "\n ".toList],
        gap ≠ [] ∧ gap.all isBlank = true := by decide
    exact fun gap h => ⟨(hall gap h).1, List.all_eq_true.mp (hall gap h).2⟩
  have hcreate : "create".toList.map capital = "CREATE".toList := by decide
  have hor : "or".toList.map capital = "OR".toList := by decide
  have hreplace : "REPLACE".toList.map capital = "REPLACE".toList := by decide
  have hkind : "Materialized".toList.map capital = "MATERIALIZED".toList := by decide
  have hview : "view".toList.map capital = "VIEW".toList := by decide
  have hwords : Spells ["CREATE", "OR", "REPLACE", "MATERIALIZED", "VIEW"] words :=
    .cons hcreate (hgap " ".toList (by decide)) <| .cons hor (hgap "\n ".toList (by decide)) <|
      .cons hreplace (hgap "\t".toList (by decide)) <|
        .cons hkind (hgap " ".toList (by decide)) (.single hview)
  have hq : q.WellFormed :=
    { schema := by
        rintro _ ⟨⟩
        exact .quoted (s := "a\"b".toList) (by decide)
      name := .quoted (s := "c.d e".toList) (by decide) }
  have hrest : Ends rest := by
    rintro c ⟨⟩
    decide
  have hdot : rest.head? ≠ some '.' := by decide
  have hif : q.name.map capital ≠ "IF".toList := by decide
  have hpriority : ∀ l ∈ Kind.byPriority.takeWhile (· ≠ Kind.view),
      l.heading.search s = none := by decide +kernel
  have hresult := ofStatement?_creation (k := .view) (by decide) hwords
    (hgap "  ".toList (by decide)) hq hif hrest hdot hpriority
  exact ⟨hwords, hq, hrest, hdot, hif, hpriority, hresult⟩

end Classified

end SchemaDump
