import SchemaDump.Proofs.ColumnClauses
import SchemaDump.Proofs.Enclosure
import SchemaDump.Proofs.Failures
import SchemaDump.Proofs.IdentityClauses
import SchemaDump.Proofs.Statement.Inert

/-! The list of a table definition as a list of items. A sequence puts its clause into the first item
of its column. If the clause means nothing to the scanner, the definition has the same list, item by
item, as before. -/
namespace SchemaDump

open Text Identifier Reading

variable {definition head list tail name p q clause item : Text} {items fronts backs : List Text}
  {a : Attachable}

namespace Column

/-- The list stands between the parenthesis of the first header and the closing one. -/
structure Frames (head list tail definition : Text) : Prop where
  text : definition = head ++ '(' :: (list ++ ')' :: tail)
  header : ∃ here, tableHeader.search definition = some ⟨(), here, '(' :: (list ++ ')' :: tail)⟩
  isLast : IsLastParenthesis (head ++ '(' :: list) tail

/-- A column is picked from the items of the list. -/
theorem find?_of_frames (h : Frames head list tail definition) (name : Text) :
    find? definition name = (pick? name (Statement.split [','] list)).map fun p =>
      { before := head ++ '(' :: p.1.flatten ++ (dropEnd isFiller p.2.1).takeWhile isBlank
        item := trimStart (dropEnd isFiller p.2.1)
        after := p.2.1.drop (dropEnd isFiller p.2.1).length ++ p.2.2.flatten ++ ')' :: tail } := by
  obtain ⟨here, hheader⟩ := h.header
  have hclosing := closingParenthesis?_append h.isLast
  have htext : head ++ '(' :: list ++ ')' :: tail = definition := by
    rw [h.text]
    simp
  rw [htext] at hclosing
  have hopening : definition.length - ('(' :: (list ++ ')' :: tail)).length = head.length := by
    rw [h.text, List.length_append, Nat.add_sub_cancel]
  have hlt : head.length < (head ++ '(' :: list).length := by simp
  have htake : (head ++ '(' :: list).take (head.length + 1) = head ++ ['('] := by
    simp [List.take_append]
  have hdrop : (head ++ '(' :: list).drop (head.length + 1) = list := by
    simp [List.drop_append]
  simp only [find?, hheader, hclosing, hopening, Option.bind_eq_bind, Option.bind_some, if_pos hlt,
    htake, hdrop]
  cases pick? name (Statement.split [','] list) <;> simp

theorem exists_frames_of_find? {column : Column} (h : find? definition name = some column) :
    ∃ head list tail, Frames head list tail definition := by
  obtain ⟨header, inside, closing, hheader, hclosing, hcut, hlt, hle⟩ := exists_of_find? h
  obtain ⟨tail, rfl, htext, hlast⟩ := closingParenthesis?_eq_some hclosing
  obtain ⟨front, more, hhere, hread, -⟩ := search_eq_some hheader
  obtain ⟨w, hw, -, hparenthesis⟩ := exists_of_mem_tableHeader (hread ▸ List.mem_cons_self)
  obtain ⟨rest, hrest⟩ := List.head?_eq_some_iff.mp hparenthesis
  have hheaded : definition = (front ++ w) ++ '(' :: rest := by
    rw [hhere, hw, hrest, List.append_assoc]
  obtain ⟨list, rfl⟩ : front ++ w ++ ['('] <+: inside := by
    have hinside : inside <+: definition := htext ▸ List.prefix_append _ _
    refine List.prefix_of_prefix_length_le ⟨rest, by rw [hheaded]; simp⟩ hinside ?_
    rw [hrest, hheaded, List.length_append, Nat.add_sub_cancel] at hlt
    rw [List.length_append] at hle
    rw [List.length_append, List.length_singleton]
    omega
  have hcons : front ++ w ++ ['('] ++ list = (front ++ w) ++ '(' :: list := by simp
  rw [hcons] at htext hlast
  refine ⟨front ++ w, list, tail, by rw [htext]; simp, ⟨header.here, ?_⟩, hlast⟩
  have heq : '(' :: rest = '(' :: (list ++ ')' :: tail) := by
    have hboth := hheaded.symm.trans htext
    rw [List.append_assoc (front ++ w) ('(' :: list), List.cons_append] at hboth
    exact List.append_cancel_left hboth
  rw [hheader, ← heq, ← hrest]

/-- The items with the clause in the first that the column names. -/
def putIn (name clause : Text) : List Text → List Text
  | [] => []
  | item :: items =>
    if isNamed name item then withClause clause item :: items
    else item :: putIn name clause items

theorem putIn_append_cons (hfronts : ∀ front ∈ fronts, isNamed name front = false)
    (hitem : isNamed name item = true) (clause : Text) (backs : List Text) :
    putIn name clause (fronts ++ item :: backs) = fronts ++ withClause clause item :: backs := by
  induction fronts with
  | nil => rw [List.nil_append, putIn, if_pos hitem, List.nil_append]
  | cons front fronts ih =>
    obtain ⟨hfront, hrest⟩ := List.forall_mem_cons.mp hfronts
    rw [List.cons_append, putIn, hfront, if_neg Bool.false_ne_true, ih hrest, List.cons_append]

theorem putIn_of_pick? (h : pick? name items = some (fronts, item, backs)) (clause : Text) :
    putIn name clause items = fronts ++ withClause clause item :: backs := by
  obtain ⟨rfl, hitem, hfronts⟩ := pick?_eq_some_iff.mp h
  exact putIn_append_cons hfronts hitem clause backs

theorem pick?_eq_none_iff :
    pick? name items = none ↔ ∀ item ∈ items, isNamed name item = false := by
  induction items with
  | nil => simp [pick?]
  | cons it items ih =>
    rw [pick?]
    split
    · next hn => simp [hn]
    · next hn => simp [hn, ih]

theorem find?_eq_none_iff_of_frames (h : Frames head list tail definition) :
    find? definition name = none ↔
      ∀ piece ∈ Statement.split [','] list, isNamed name piece = false := by
  rw [find?_of_frames h, Option.map_eq_none_iff, pick?_eq_none_iff]

/-- A column is missed only where no piece of a list begins with its name. -/
theorem find?_eq_none_iff : find? definition name = none ↔ ∀ head list tail,
    Frames head list tail definition →
      ∀ piece ∈ Statement.split [','] list, isNamed name piece = false := by
  constructor
  · intro h head list tail hframes
    exact (find?_eq_none_iff_of_frames hframes).mp h
  · intro h
    by_contra hfound
    obtain ⟨column, hcolumn⟩ := Option.ne_none_iff_exists'.mp hfound
    obtain ⟨head, list, tail, hframes⟩ := exists_frames_of_find? hcolumn
    exact hfound ((find?_eq_none_iff_of_frames hframes).mpr (h head list tail hframes))

theorem putIn_of_forall (h : ∀ item ∈ items, isNamed name item = false) (clause : Text) :
    putIn name clause items = items := by
  induction items with
  | nil => rfl
  | cons it items ih =>
    obtain ⟨hit, hitems⟩ := List.forall_mem_cons.mp h
    rw [putIn, hit, if_neg Bool.false_ne_true, ih hitems]

end Column

namespace Attachment

open Column

/-- A sequence puts its clause into an item of the list. -/
theorem place_of_frames (h : Frames head list tail definition) (hname : a.column = some name)
    (hclause : Clause.identity? a.definition = some clause) :
    place definition a =
      head ++ '(' :: ((putIn name clause (Statement.split [','] list)).flatten ++ ')' :: tail) := by
  have hfind := find?_of_frames h name
  cases hpick : pick? name (Statement.split [','] list) with
  | none =>
    rw [hpick, Option.map_none] at hfind
    rw [place_of_not_found (Or.inl (by simpa [hname] using hfind)),
      putIn_of_forall (pick?_eq_none_iff.mp hpick), Statement.flatten_split, h.text]
  | some p =>
    obtain ⟨fronts, item, backs⟩ := p
    rw [hpick, Option.map_some] at hfind
    rw [place, addSequence, hname, Option.getD_some, hfind, hclause, putIn_of_pick? hpick]
    simp [Column.insert, withClause]

end Attachment

namespace Column

section Item

variable {blanks more null filler : Text}

/-- A clause stands before a blank or a comma, or at the end of its item. -/
theorem IsItem.head?_behind (h : IsItem name blanks more null filler) :
    ∀ c ∈ (null ++ filler).head?, isFiller c = true := by
  intro c hc
  obtain rfl | hnull := h.endsInNull.1
  · exact h.areFiller c (List.mem_of_head? hc)
  · obtain ⟨d, s, rfl, hd⟩ := hnull.exists_cons
    obtain rfl : d = c := by simpa using hc
    simp [isFiller, hd]

theorem IsItem.admits (h : IsItem name blanks more null filler) :
    Statement.Admits (null ++ filler) where
  noDollar := by
    rw [List.mem_append, not_or]
    constructor
    · obtain rfl | hnull := h.endsInNull.1
      · exact List.not_mem_nil
      · exact hnull.not_mem (by decide) (by decide)
    · exact not_mem_of_forall h.areFiller (by decide)
  seam c hc hm := by
    have hfiller := h.head?_behind c hc
    simp only [Statement.marks, List.mem_cons, List.not_mem_nil, or_false] at hm
    obtain rfl | rfl | rfl := hm <;> exact absurd hfiller (by decide)

theorem IsItem.isFiller_getLast? (h : IsItem name blanks more null filler) (hname : name ≠ []) :
    ∀ c ∈ (blanks ++ (name ++ more ++ null)).getLast?, isFiller c = false := by
  rw [List.getLast?_append_of_ne_nil _ (by simp [hname])]
  exact h.last

/-- An item with nothing behind the clause ends in no comma. -/
theorem IsItem.getLast?_ne (h : IsItem name blanks more null filler) (hname : name ≠ []) :
    null ++ filler ≠ [] ∨ (blanks ++ (name ++ more)).getLast? ≠ some ',' := by
  by_cases hempty : null ++ filler = []
  · right
    obtain ⟨rfl, rfl⟩ := List.append_eq_nil_iff.mp hempty
    intro hlast
    have hcomma := h.isFiller_getLast? hname ',' (by simpa using hlast)
    revert hcomma
    decide
  · exact Or.inl hempty

/-- The clause comes into the item at one place. -/
theorem exists_withClause (hp : WellFormed p) (h : isNamed p item = true) :
    ∃ l r, item = l ++ r ∧ l ≠ [] ∧ Statement.Admits r ∧ (∀ c ∈ r.head?, isFiller c = true) ∧
      (r ≠ [] ∨ l.getLast? ≠ some ',') ∧
      (∀ clause, withClause clause item = l ++ (' ' :: clause ++ r)) ∧
      ∀ clause, isNamed p (withClause clause item) = true := by
  obtain ⟨blanks, more, null, filler, rfl, hitem⟩ := exists_isItem hp h
  refine ⟨blanks ++ (p ++ more), null ++ filler, by simp, by simp [hp.ne_nil], hitem.admits,
    hitem.head?_behind, hitem.getLast?_ne hp.ne_nil, fun clause => ?_, fun clause => ?_⟩
  · rw [withClause_eq hp hitem]
    simp
  · rw [withClause_eq hp hitem]
    have hfollowed := hitem.followed
    cases more with
    | nil =>
      refine isNamed_iff.mpr ⟨blanks, ' ', clause ++ null ++ filler, hitem.areBlank, rfl, ?_⟩
      simp
    | cons c more =>
      refine isNamed_iff.mpr ⟨blanks, c, more ++ ' ' :: clause ++ null ++ filler, hitem.areBlank,
        by simpa using hfollowed, ?_⟩
      simp

end Item

theorem standsFor_withClause (hp : WellFormed p) (h : isNamed p item = true)
    (hclause : Statement.IsInert clause) :
    Statement.StandsFor ',' (withClause clause item) item := by
  obtain ⟨l, r, rfl, hl, hr, -, hend, hwith, -⟩ := exists_withClause hp h
  rw [hwith]
  exact Statement.standsFor_insert (Or.inr rfl) hl hr hclause hend

theorem standsFor_putIn (hp : WellFormed p) (hclause : Statement.IsInert clause)
    (items : List Text) :
    List.Forall₂ (Statement.StandsFor ',') (putIn p clause items) items := by
  induction items with
  | nil => exact .nil
  | cons item items ih =>
    rw [putIn]
    split
    · next hn =>
      refine .cons (standsFor_withClause hp hn hclause) ?_
      exact List.forall₂_same.mpr fun x _ => Statement.standsFor_refl ',' x
    · exact .cons (Statement.standsFor_refl ',' item) ih

/-- The list has the same items as before but for that clause. -/
theorem split_putIn (hp : WellFormed p) (hclause : Statement.IsInert clause) (list : Text) :
    Statement.split [','] (putIn p clause (Statement.split [','] list)).flatten =
      putIn p clause (Statement.split [','] list) := by
  refine Statement.split_flatten_of_standsFor (Or.inr rfl) (standsFor_putIn hp hclause _) ?_
  rw [Statement.flatten_split]

/-- Behind the text of a piece come blanks and commas, or the closing parenthesis behind the last. -/
theorem exists_head?_behind {l r : Text}
    (hpieces : Statement.split [','] list = fronts ++ (l ++ r) :: backs)
    (hhead : ∀ c ∈ r.head?, isFiller c = true) (hend : r ≠ [] ∨ l.getLast? ≠ some ',')
    (tail : Text) : ∃ c, (r ++ (backs.flatten ++ ')' :: tail)).head? = some c ∧
      (isFiller c = true ∨ c = ')') := by
  cases r with
  | cons c r => exact ⟨c, rfl, Or.inl (hhead c rfl)⟩
  | nil =>
    -- it is the last piece, as it has no comma
    have hbacks : backs = [] := by
      by_contra hne
      have hlast := Statement.getLast?_of_split hpieces hne
      rw [List.append_nil] at hlast
      exact hend.elim (fun h => h rfl) fun h => h hlast
    exact ⟨')', by rw [hbacks]; rfl, Or.inr rfl⟩

/-- The clause comes into the list at one place, before no quote. -/
theorem exists_flatten_putIn (hp : WellFormed p) (clause list : Text) :
    (putIn p clause (Statement.split [','] list)).flatten = list ∨
      ∃ l r, list = l ++ r ∧ (∀ s, (r ++ ')' :: s).head? ≠ some '"') ∧
        (putIn p clause (Statement.split [','] list)).flatten = l ++ ' ' :: clause ++ r := by
  cases hpick : pick? p (Statement.split [','] list) with
  | none =>
    left
    rw [putIn_of_forall (pick?_eq_none_iff.mp hpick), Statement.flatten_split]
  | some picked =>
    right
    obtain ⟨fronts, item, backs⟩ := picked
    obtain ⟨hitems, hnamed, -⟩ := pick?_eq_some_iff.mp hpick
    obtain ⟨l, r, rfl, hl, hr, hhead, hend, hwith, -⟩ := exists_withClause hp hnamed
    have hlist : list = fronts.flatten ++ l ++ (r ++ backs.flatten) := by
      conv => lhs; rw [← Statement.flatten_split [','] list, hitems]
      simp
    refine ⟨fronts.flatten ++ l, r ++ backs.flatten, hlist, fun s hquote => ?_, ?_⟩
    · obtain ⟨c, hc, hends⟩ := exists_head?_behind hitems hhead hend s
      rw [List.append_assoc, hc] at hquote
      obtain rfl := Option.some.inj hquote
      revert hends
      decide
    · rw [putIn_of_pick? hpick, hwith]
      simp

/-- It leaves the list where it was. -/
theorem Frames.putIn (h : Frames head list tail definition) (hp : WellFormed p)
    (hclause : Statement.IsInert clause) (hparenthesis : clause.head? ≠ some '(')
    (hblank : clause.head?.any isBlank = false) :
    Frames head (putIn p clause (Statement.split [','] list)).flatten tail
      (head ++ '(' :: ((Column.putIn p clause (Statement.split [','] list)).flatten ++
        ')' :: tail)) := by
  obtain ⟨here, hheader⟩ := h.header
  have hlast := h.isLast
  rw [h.text] at hheader
  obtain hsame | ⟨l, r, rfl, hr, hlist⟩ := exists_flatten_putIn hp clause list
  · rw [hsame]
    exact ⟨rfl, ⟨here, hheader⟩, hlast⟩
  · rw [hlist]
    rw [List.append_assoc] at hheader
    have hinsert := search_tableHeader_insert hheader (hclause.plain '"' (by simp)) hparenthesis
      hblank (hr tail)
    refine ⟨rfl, by simpa using hinsert, ?_⟩
    have hsemicolon : ';' ∉ clause := hclause.plain ';' (by simp)
    have hcut : IsLastParenthesis ((head ++ '(' :: l) ++ r) tail := by simpa using hlast
    simpa using hcut.insert (Or.inr hsemicolon)

end Column
end SchemaDump
