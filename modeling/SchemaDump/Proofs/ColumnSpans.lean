import SchemaDump.Proofs.ColumnList

/-! Where a column stands in its definition. Its place is counted from the lengths of the pieces
before its own, and its text ends where that piece has only blanks and commas left. -/
namespace SchemaDump.Column

open Text Identifier

variable {definition name s blanks more null filler rest : Text} {column : Column} {c : Char}

/-- Where the text of the column starts in the definition. -/
def start (column : Column) : Nat := column.before.length

/-- Where it stops. -/
def stop (column : Column) : Nat := column.start + column.item.length

theorem extract_of_find? (h : find? definition name = some column) :
    definition.extract column.start column.stop = column.item := by
  obtain ⟨-, -, -, -, -, hcut, -⟩ := exists_of_find? h
  rw [hcut, List.append_assoc, List.extract_eq_take_drop, start, List.drop_left, stop, start,
    Nat.add_sub_cancel_left, List.take_left]

theorem getElem?_stop_of_find? (h : find? definition name = some column) :
    definition[column.stop]? = column.after.head? := by
  obtain ⟨-, -, -, -, -, hcut, -⟩ := exists_of_find? h
  rw [hcut, stop, start, ← List.length_append, List.getElem?_append_right (Nat.le_refl _),
    Nat.sub_self, List.head?_eq_getElem?]

theorem isNamed_of_trimStart (h : trimStart s = name ++ c :: rest) (hc : isBlank c = true) :
    isNamed name s = true := by
  refine isNamed_iff.mpr ⟨s.takeWhile isBlank, c, rest, fun d => List.mem_takeWhile_imp, hc, ?_⟩
  rw [← h, Statement.takeWhile_append_trimStart]

/-- In the text of the column its name is followed by a blank, if by anything. -/
theorem IsItem.isBlank_head? (h : IsItem name blanks more null filler) :
    ∀ c ∈ (more ++ null).head?, isBlank c = true := by
  intro c hc
  have hfollowed := h.followed
  rw [List.head?_append, Option.mem_def.mp hc] at hfollowed
  exact hfollowed

/-- The column is cut out of the first piece that begins with its name. -/
theorem exists_piece_of_find? (hp : WellFormed name) (h : find? definition name = some column) :
    ∃ head list tail fronts blanks more null filler backs, Frames head list tail definition ∧
      Statement.split [','] list =
        fronts ++ (blanks ++ (name ++ more ++ null) ++ filler) :: backs ∧
      (∀ front ∈ fronts, isNamed name front = false) ∧ IsItem name blanks more null filler ∧
      column =
        { before := head ++ '(' :: (fronts.flatten ++ blanks)
          item := name ++ more ++ null
          after := filler ++ (backs.flatten ++ ')' :: tail) } := by
  obtain ⟨head, list, tail, hframes⟩ := exists_frames_of_find? h
  rw [find?_of_frames hframes] at h
  obtain ⟨⟨fronts, piece, backs⟩, hpick, rfl⟩ := Option.map_eq_some_iff.mp h
  obtain ⟨hpieces, hnamed, hfronts⟩ := pick?_eq_some_iff.mp hpick
  obtain ⟨blanks, more, null, filler, rfl, hitem⟩ := exists_isItem hp hnamed
  refine ⟨head, list, tail, fronts, blanks, more, null, filler, backs, hframes, hpieces, hfronts,
    hitem, ?_⟩
  simp only [hitem.dropEnd_eq hp, hitem.takeWhile_eq hp, hitem.trimStart_eq hp, List.drop_left]
  simp

/-- A column found is a stretch of the list between its parentheses, in the first piece that begins
with the column's name. It starts with the name and stops at a blank, a comma or a parenthesis. -/
theorem delimited_of_find? (hp : WellFormed name) (h : find? definition name = some column) :
    ∃ head list tail fronts piece backs, Frames head list tail definition ∧
      Statement.split [','] list = fronts ++ piece :: backs ∧
      column.item = trimStart (dropEnd isFiller piece) ∧
      column.stop =
        head.length + 1 + (fronts.map List.length).sum + (dropEnd isFiller piece).length ∧
      definition.extract column.start column.stop = column.item ∧
      head.length < column.start ∧ column.stop ≤ head.length + 1 + list.length ∧
      (∃ rest, column.item = name ++ rest ∧ ∀ c ∈ rest.head?, isBlank c = true) ∧
      (∀ c ∈ column.item.getLast?, isBlank c = false ∧ c ≠ ',') ∧
      (∃ c, definition[column.stop]? = some c ∧ (isBlank c = true ∨ c = ',' ∨ c = ')')) ∧
      ∀ front ∈ fronts, ¬ ∃ c rest, trimStart front = name ++ c :: rest ∧ isBlank c = true := by
  have hslice := extract_of_find? h
  have hbehind := getElem?_stop_of_find? h
  obtain ⟨head, list, tail, fronts, blanks, more, null, filler, backs, hframes, hpieces, hfronts,
    hitem, rfl⟩ := exists_piece_of_find? hp h
  have htext := hitem.dropEnd_eq hp
  have hlength : list.length = (fronts.map List.length).sum +
      ((blanks ++ (name ++ more ++ null) ++ filler).length + backs.flatten.length) := by
    rw [← Statement.flatten_split [','] list, hpieces, List.flatten_append, List.flatten_cons,
      List.length_append, List.length_append, List.length_flatten]
  refine ⟨head, list, tail, fronts, _, backs, hframes, hpieces, ?_, ?_, hslice, ?_, ?_,
    ⟨more ++ null, List.append_assoc name more null, hitem.isBlank_head?⟩, ?_, ?_, ?_⟩
  · rw [htext, hitem.trimStart_eq hp]
  · simp only [start, stop, htext, List.length_append, List.length_cons, List.length_flatten]
    omega
  · simp only [start, List.length_append, List.length_cons]
    omega
  · simp only [start, stop, hlength, List.length_append, List.length_cons, List.length_flatten]
    omega
  · intro c hc
    have hlast : isFiller c = false := hitem.last c hc
    simpa [isFiller, and_comm] using hlast
  · have hfiller : ∀ c ∈ filler.head?, isFiller c = true :=
      fun c hc => hitem.areFiller c (List.mem_of_head? hc)
    have hcomma : (blanks ++ (name ++ more ++ null)).getLast? ≠ some ',' := by
      intro hlast
      have hno := hitem.isFiller_getLast? hp.ne_nil ',' hlast
      revert hno
      decide
    obtain ⟨c, hc, hends⟩ := exists_head?_behind hpieces hfiller (Or.inr hcomma) tail
    refine ⟨c, hbehind.trans hc, ?_⟩
    simpa [isFiller, or_assoc, or_left_comm] using hends
  · rintro front hfront ⟨c, rest, htrim, hc⟩
    have hnone := hfronts front hfront
    rw [isNamed_of_trimStart htrim hc] at hnone
    cases hnone

/-- Commas stand in the name, in an earlier type and comment, and at the end. -/
theorem delimited_of_find?_commas :
    let definition := ("CREATE TABLE t (n numeric(10,2) -- \"a, b\" ,\n  /* x */,\n  \"a, b\" int " ++
      "DEFAULT f('(', 1 ), c int) WITH (x = 1);").toList
    let name := "\"a, b\"".toList
    let column : Column :=
      { before := "CREATE TABLE t (n numeric(10,2) -- \"a, b\" ,\n  /* x */,\n  ".toList
        item := "\"a, b\" int DEFAULT f('('".toList
        after := ", 1 ), c int) WITH (x = 1);".toList }
    WellFormed name ∧ find? definition name = some column ∧
      ∃ head list tail fronts piece backs, Frames head list tail definition ∧
        Statement.split [','] list = fronts ++ piece :: backs ∧
        column.item = trimStart (dropEnd isFiller piece) ∧
        column.stop =
          head.length + 1 + (fronts.map List.length).sum + (dropEnd isFiller piece).length ∧
        definition.extract column.start column.stop = column.item ∧
        head.length < column.start ∧ column.stop ≤ head.length + 1 + list.length ∧
        (∃ rest, column.item = name ++ rest ∧ ∀ c ∈ rest.head?, isBlank c = true) ∧
        (∀ c ∈ column.item.getLast?, isBlank c = false ∧ c ≠ ',') ∧
        (∃ c, definition[column.stop]? = some c ∧ (isBlank c = true ∨ c = ',' ∨ c = ')')) ∧
        ∀ front ∈ fronts, ¬ ∃ c rest, trimStart front = name ++ c :: rest ∧ isBlank c = true := by
  intro definition name column
  have hname : WellFormed name := .quoted (s := "a, b".toList) (by decide)
  have hfound : find? definition name = some column := by decide +kernel
  exact ⟨hname, hfound, delimited_of_find? hname hfound⟩

end SchemaDump.Column
