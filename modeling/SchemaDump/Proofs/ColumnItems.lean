import SchemaDump.Proofs.Attachables
import SchemaDump.Proofs.ColumnList
import SchemaDump.Proofs.Lists
import SchemaDump.Proofs.Statement.Items

/-! The item of a column in a table's list. The list is searched in pieces cut behind every comma in
code, also inside parentheses. Where an item has no such comma it is one of the pieces, and the clause
of a sequence comes to its end or before its null clause. -/
namespace SchemaDump

open Text Identifier

variable {p clause header list tail x y : Text} {c : Char}

namespace Statement.Token

variable {us item : List Token} {fronts backs : List (List Token)} {piece sofar : Text}

/-- Behind a cut the tokens are cut as they are alone. -/
theorem cutBehind_append_cons (c : Char) (sofar : Text) (us vs : List Token) :
    cutBehind c sofar (us ++ loose (.plain c) :: vs) =
      cutBehind c sofar (us ++ [loose (.plain c)]) ++ cutBehind c [] vs := by
  induction us generalizing sofar with
  | nil => simp [cutBehind]
  | cons t us ih =>
    rw [List.cons_append, List.cons_append, cutBehind, cutBehind, ih, ih]
    split <;> simp

/-- With a separator at the end, tokens have the pieces that they have without, the last with the
separator. -/
theorem exists_of_mem_cutBehind (h : piece ∈ cutBehind c sofar (us ++ [loose (.plain c)])) :
    piece ∈ cutBehind c sofar us ∨
      ∃ x, piece = x ++ [c] ∧ (x = [] ∨ x ∈ cutBehind c sofar us) := by
  induction us generalizing sofar with
  | nil =>
    right
    obtain rfl : piece = sofar ++ [c] := by
      simpa [cutBehind, text, Piece.text] using h
    refine ⟨sofar, rfl, ?_⟩
    by_cases hs : sofar = []
    · exact Or.inl hs
    · exact Or.inr (by simp [cutBehind, hs])
  | cons t us ih =>
    rw [List.cons_append, cutBehind] at h
    rw [cutBehind]
    split at h
    · next ht =>
      rw [if_pos ht]
      obtain rfl | h := List.mem_cons.mp h
      · exact Or.inl List.mem_cons_self
      · obtain h | ⟨x, rfl, hx⟩ := ih h
        · exact Or.inl (List.mem_cons_of_mem _ h)
        · exact Or.inr ⟨x, rfl, hx.imp_right (List.mem_cons_of_mem _)⟩
    · next ht =>
      rw [if_neg ht]
      exact ih h

theorem cutBehind_append_flatMap (c : Char) (fronts : List (List Token)) (vs : List Token) :
    cutBehind c [] ((fronts.flatMap fun front => front ++ [loose (.plain c)]) ++ vs) =
      (fronts.flatMap fun front => cutBehind c [] (front ++ [loose (.plain c)])) ++
        cutBehind c [] vs := by
  induction fronts with
  | nil => rfl
  | cons front fronts ih =>
    rw [List.flatMap_cons, List.flatMap_cons, List.append_assoc, List.append_assoc,
      List.singleton_append, cutBehind_append_cons, ih, List.append_assoc]

theorem flatten_cutBehind_flatMap (c : Char) (fronts : List (List Token)) :
    (fronts.flatMap fun front => cutBehind c [] (front ++ [loose (.plain c)])).flatten =
      textOf (fronts.flatMap fun front => front ++ [loose (.plain c)]) := by
  have hcut := cutBehind_append_flatMap c fronts []
  rw [List.append_nil, cutBehind, if_pos rfl, List.append_nil] at hcut
  rw [← hcut, flatten_cutBehind, List.nil_append]

theorem intercalate_map_textOf (fronts : List (List Token)) (x : Text)
    (backs : List (List Token)) : [','].intercalate (fronts.map textOf ++ x :: backs.map textOf) =
      textOf (fronts.flatMap fun front => front ++ [comma]) ++
        (x ++ textOf (backs.flatMap fun back => comma :: back)) := by
  have hfronts : ((fronts.map textOf).flatMap fun front => front ++ [',']) =
      textOf (fronts.flatMap fun front => front ++ [comma]) := by
    induction fronts with
    | nil => rfl
    | cons front fronts ih => simp [ih, comma, text, Piece.text]
  have hbacks : ((backs.map textOf).flatMap fun back => ',' :: back) =
      textOf (backs.flatMap fun back => comma :: back) := by
    induction backs with
    | nil => rfl
    | cons back backs ih => simp [ih, comma, text, Piece.text]
  rw [Lists.intercalate_append_cons, hfronts, hbacks]

theorem ofText_of_items (h : items 0 [] (ofText list) = fronts ++ item :: backs) : ofText list =
    (fronts.flatMap fun front => front ++ [comma]) ++
      (item ++ backs.flatMap fun back => comma :: back) := by
  rw [← Lists.intercalate_append_cons, ← h, intercalate_items, List.nil_append]

/-- A list is put together again from its items. -/
theorem eq_intercalate_of_items (h : items 0 [] (ofText list) = fronts ++ item :: backs) :
    list = [','].intercalate (fronts.map textOf ++ textOf item :: backs.map textOf) := by
  rw [intercalate_map_textOf, ← textOf_append, ← textOf_append, ← ofText_of_items h,
    (grammar_ofText list).textOf_eq]

/-- The pieces of a list, item by item up to one of them. -/
theorem split_of_items (h : items 0 [] (ofText list) = fronts ++ item :: backs) :
    split [','] list =
      (fronts.flatMap fun front => cutBehind ',' [] (front ++ [comma])) ++
        cutBehind ',' [] (item ++ backs.flatMap fun back => comma :: back) := by
  rw [(grammar_ofText list).split_eq (Or.inr rfl), ofText_of_items h]
  exact cutBehind_append_flatMap ',' fronts _

/-- An item without a comma is one piece, with the comma behind it if there is one. -/
theorem exists_piece (hitem : comma ∉ item) (hne : textOf item ≠ []) (backs : List (List Token)) :
    ∃ ending rest, (∀ c ∈ ending, c = ',') ∧
      cutBehind ',' [] (item ++ backs.flatMap fun back => comma :: back) =
        (textOf item ++ ending) :: rest ∧
      ending ++ rest.flatten = textOf (backs.flatMap fun back => comma :: back) := by
  rw [cutBehind_append hitem, List.nil_append]
  cases backs with
  | nil => exact ⟨[], [], by simp, by simp [cutBehind, hne], rfl⟩
  | cons back backs =>
    refine ⟨[','], cutBehind ',' [] (back ++ backs.flatMap fun back => comma :: back), by simp, ?_, ?_⟩
    · rw [List.flatMap_cons, List.cons_append, comma, cutBehind, if_pos rfl]
      rfl
    · rw [flatten_cutBehind]
      rfl

end Statement.Token

namespace Column

open Statement.Token

variable {blanks more null filler : Text} {fronts : List (List Statement.Token)}

theorem isNamed_append (h : isNamed p x = true) (y : Text) : isNamed p (x ++ y) = true := by
  obtain ⟨blanks, c, rest, hblanks, hc, rfl⟩ := isNamed_iff.mp h
  exact isNamed_iff.mpr ⟨blanks, c, rest ++ y, hblanks, hc, by simp⟩

/-- A name is followed by a blank, so that a comma at the end makes none. -/
theorem isNamed_of_concat (h : isNamed p (x ++ [',']) = true) : isNamed p x = true := by
  obtain ⟨blanks, c, rest, hblanks, hc, heq⟩ := isNamed_iff.mp h
  obtain rfl | ⟨rest, d, rfl⟩ := List.eq_nil_or_concat' rest
  · obtain ⟨-, hcomma⟩ := List.append_inj' (heq.trans (List.append_assoc blanks p [c]).symm) rfl
    obtain rfl : ',' = c := by simpa using hcomma
    exact absurd hc (by decide)
  · have hcut : x ++ [','] = blanks ++ (p ++ c :: rest) ++ [d] := by simpa using heq
    obtain ⟨rfl, -⟩ := List.append_inj' hcut rfl
    exact isNamed_iff.mpr ⟨blanks, c, rest, hblanks, hc, rfl⟩

/-- Where the column names no piece of an item, it names none that has the comma behind the item. -/
theorem isNamed_eq_false_of_fronts
    (h : ∀ front ∈ fronts, ∀ piece ∈ cutBehind ',' [] front, isNamed p piece = false) :
    ∀ piece ∈ fronts.flatMap fun front => cutBehind ',' [] (front ++ [comma]),
      isNamed p piece = false := by
  intro piece hmem
  obtain ⟨front, hfront, hmem⟩ := List.mem_flatMap.mp hmem
  by_contra hne
  have hnamed : isNamed p piece = true := by simpa using hne
  obtain hmem | ⟨x, rfl, hx⟩ := exists_of_mem_cutBehind hmem
  · rw [h front hfront piece hmem] at hnamed
    cases hnamed
  · have hcut := isNamed_of_concat hnamed
    obtain rfl | hx := hx
    · cases hcut
    · rw [h front hfront x hx] at hcut
      cases hcut

theorem IsItem.append (h : IsItem p blanks more null filler) (hy : ∀ c ∈ y, isFiller c = true) :
    IsItem p blanks more null (filler ++ y) where
  areBlank := h.areBlank
  areFiller c hc := (List.mem_append.mp hc).elim (h.areFiller c) (hy c)
  endsInNull := h.endsInNull
  last := h.last
  followed := by
    have hfollowed := h.followed
    cases hs : more ++ null ++ filler with
    | nil => simp [hs] at hfollowed
    | cons c s =>
      rw [hs] at hfollowed
      rw [← List.append_assoc, hs]
      exact hfollowed

end Column

namespace Attachment

open Column Statement.Token

variable {a : Attachable} {fronts backs : List (List Statement.Token)}
  {item : List Statement.Token}

/-- The identity clause comes into the item of its column, before the null clause or else at the end,
if no comma in parentheses cuts the item or cuts off a piece of an earlier item that begins with the
column's name, too. The other items stay as they are. -/
theorem addSequences_in_item (hheader : IsHeader header)
    (hlast : IsLastParenthesis (header ++ '(' :: list) tail)
    (hitems : Statement.Token.items 0 [] (ofText list) = fronts ++ item :: backs)
    (hcolumn : a.column = some p) (hp : WellFormed p)
    (hclause : Clause.identity? a.definition = some clause)
    (hitem : isNamed p (textOf item) = true) (hwhole : comma ∉ item)
    (hfronts : ∀ front ∈ fronts, ∀ piece ∈ cutBehind ',' [] front, isNamed p piece = false) :
    ∃ blanks more null filler, IsItem p blanks more null filler ∧
      textOf item = blanks ++ (p ++ more ++ null) ++ filler ∧
      list = [','].intercalate
        (fronts.map textOf ++ (blanks ++ (p ++ more ++ null) ++ filler) :: backs.map textOf) ∧
      (addSequences (header ++ '(' :: (list ++ ')' :: tail)) [a]).1 = header ++ '(' ::
        ([','].intercalate (fronts.map textOf ++
          (blanks ++ (p ++ more ++ ' ' :: clause ++ null) ++ filler) :: backs.map textOf) ++
          ')' :: tail) := by
  obtain ⟨blanks, more, null, filler, htext, hparts⟩ := exists_isItem hp hitem
  have hne : textOf item ≠ [] := by
    intro hnil
    rw [hnil] at hitem
    cases hitem
  obtain ⟨ending, rest, hending, hpiece, hrest⟩ := exists_piece hwhole hne backs
  have hfiller : ∀ c ∈ ending, isFiller c = true := by
    intro c hc
    rw [hending c hc]
    rfl
  refine ⟨blanks, more, null, filler, hparts, htext, htext ▸ eq_intercalate_of_items hitems, ?_⟩
  have hframes : Frames header list tail (header ++ '(' :: (list ++ ')' :: tail)) :=
    ⟨rfl, ⟨_, Reading.search_of_prefers (hheader.prefers rfl)⟩, hlast⟩
  have hclosed := withClause_eq hp (hparts.append hfiller) clause
  have hplaced := place_of_frames hframes hcolumn hclause
  rw [split_of_items hitems, hpiece,
    putIn_append_cons (isNamed_eq_false_of_fronts hfronts) (isNamed_append hitem ending), htext,
    List.append_assoc _ filler ending, hclosed] at hplaced
  rw [fst_addSequences, List.foldl_cons, List.foldl_nil, hplaced, intercalate_map_textOf]
  have hbefore : (fronts.flatMap fun front => cutBehind ',' [] (front ++ [comma])).flatten =
      textOf (fronts.flatMap fun front => front ++ [comma]) := flatten_cutBehind_flatMap ',' fronts
  rw [List.flatten_append, hbefore, List.flatten_cons, ← hrest]
  simp

/-- Commas and the column's name stand in a type, a comment and a later call. -/
theorem addSequences_in_item_quoted_column :
    let header := "CREATE TABLE public.t ".toList
    let before := "\n  n numeric(10,2) NOT NULL /* \"i d\" , */".toList
    let text := "\n  \"i d\" integer DEFAULT 'a,b' NOT NULL".toList
    let after := "\n  CHECK (f(n, \"i d\" ) > 0)\n".toList
    let list := before ++ ',' :: (text ++ ',' :: after)
    let column := "\"i d\"".toList
    let clause := "GENERATED ALWAYS AS IDENTITY (SEQUENCE NAME s)".toList
    let a : Attachable :=
      { kind := .sequence
        schema := "public".toList
        table := "t".toList
        name := some "public.s".toList
        column := some column
        definition := ("ALTER TABLE t ALTER COLUMN \"i d\" ADD GENERATED ALWAYS AS IDENTITY " ++
          "(\n    SEQUENCE NAME s\n);").toList }
    IsHeader header ∧ IsLastParenthesis (header ++ '(' :: list) [';'] ∧
      Statement.Token.items 0 [] (ofText list) = [ofText before] ++ ofText text :: [ofText after] ∧
      a.column = some column ∧ WellFormed column ∧
      Clause.identity? a.definition = some clause ∧
      isNamed column (textOf (ofText text)) = true ∧ comma ∉ ofText text ∧
      (∀ front ∈ [ofText before], ∀ piece ∈ cutBehind ',' [] front,
        isNamed column piece = false) ∧
      ∃ blanks more null filler, IsItem column blanks more null filler ∧
        textOf (ofText text) = blanks ++ (column ++ more ++ null) ++ filler ∧
        list = [','].intercalate ([ofText before].map textOf ++
          (blanks ++ (column ++ more ++ null) ++ filler) :: [ofText after].map textOf) ∧
        (addSequences (header ++ '(' :: (list ++ ')' :: [';'])) [a]).1 = header ++ '(' ::
          ([','].intercalate ([ofText before].map textOf ++
            (blanks ++ (column ++ more ++ ' ' :: clause ++ null) ++ filler) ::
              [ofText after].map textOf) ++ ')' :: [';']) := by
  intro header before text after list column clause a
  have hheader : IsHeader header := by
    have hread : ((), ['(']) ∈ tableHeader (header ++ ['(']) := by decide +kernel
    obtain ⟨w, hw, hheader, -⟩ := exists_of_mem_tableHeader hread
    rwa [List.append_cancel_right hw]
  have hlast : IsLastParenthesis (header ++ '(' :: list) [';'] :=
    Or.inl ⟨[], [], rfl, by decide, by decide⟩
  have hitems : Statement.Token.items 0 [] (ofText list) =
      [ofText before] ++ ofText text :: [ofText after] := by
    decide +kernel
  have hcolumn : WellFormed column := .quoted (s := "i d".toList) (by decide)
  have hclause : Clause.identity? a.definition = some clause := by decide +kernel
  have hitem : isNamed column (textOf (ofText text)) = true := by decide +kernel
  have hwhole : comma ∉ ofText text := by decide +kernel
  have hfronts : ∀ front ∈ [ofText before], ∀ piece ∈ cutBehind ',' [] front,
      isNamed column piece = false := by
    decide +kernel
  exact ⟨hheader, hlast, hitems, rfl, hcolumn, hclause, hitem, hwhole, hfronts,
    addSequences_in_item hheader hlast hitems rfl hcolumn hclause hitem hwhole hfronts⟩

/-- A sequence of the column of `t`. -/
def sequenceOfT (column : String) : Attachable :=
  { kind := .sequence
    schema := "public".toList
    table := "t".toList
    name := some "public.s".toList
    column := some column.toList
    definition := ("ALTER TABLE t ALTER " ++ column ++
      " ADD GENERATED ALWAYS AS IDENTITY (SEQUENCE NAME s);").toList }

/-- With a sequence of the column, the list of the table, which has these items, becomes another
than the one with the clause at the end of the column's item. -/
def Misses (header list column joined expected : String) (items : List String) : Prop :=
  IsLastParenthesis (header.toList ++ '(' :: list.toList) [';'] ∧
    Statement.items list.toList = items.map String.toList ∧
    (addSequences (header.toList ++ '(' :: (list.toList ++ ')' :: [';'])) [sequenceOfT column]).1 =
      header.toList ++ '(' :: (joined.toList ++ ')' :: [';']) ∧
    joined.toList ≠ expected.toList

/-- A comma in parentheses ends the piece of the column, or begins one that is taken for it. With
something else around the name, or between the table's name and its list, there is no piece. -/
theorem identity_clause_misses_item :
    Misses "CREATE TABLE t " "id numeric(10, 0)" "id"
        "id numeric(10 GENERATED ALWAYS AS IDENTITY (SEQUENCE NAME s), 0)"
        "id numeric(10, 0) GENERATED ALWAYS AS IDENTITY (SEQUENCE NAME s)"
        ["id numeric(10, 0)"] ∧
      Misses "CREATE TABLE t " "a int CHECK (f(a, id ) > 0), id int" "id"
        "a int CHECK (f(a, id ) > 0) GENERATED ALWAYS AS IDENTITY (SEQUENCE NAME s), id int"
        "a int CHECK (f(a, id ) > 0), id int GENERATED ALWAYS AS IDENTITY (SEQUENCE NAME s)"
        ["a int CHECK (f(a, id ) > 0)", "id int"] ∧
      Misses "CREATE TABLE t " "a int, -- note\n  id int" "id" "a int, -- note\n  id int"
        "a int, -- note\n  id int GENERATED ALWAYS AS IDENTITY (SEQUENCE NAME s)"
        ["a int", "-- note\n  id int"] ∧
      Misses "CREATE TABLE t " "\"id\"int" "\"id\"" "\"id\"int"
        "\"id\"int GENERATED ALWAYS AS IDENTITY (SEQUENCE NAME s)" ["\"id\"int"] ∧
      Misses "CREATE TABLE t /* note */ " "id int" "id" "id int"
        "id int GENERATED ALWAYS AS IDENTITY (SEQUENCE NAME s)" ["id int"] := by
  refine ⟨⟨?_, ?_⟩, ⟨?_, ?_⟩, ⟨?_, ?_⟩, ⟨?_, ?_⟩, ⟨?_, ?_⟩⟩
  · exact Or.inl ⟨[], [], rfl, by decide, by decide⟩
  · decide +kernel
  · exact Or.inl ⟨[], [], rfl, by decide, by decide⟩
  · decide +kernel
  · exact Or.inl ⟨[], [], rfl, by decide, by decide⟩
  · decide +kernel
  · exact Or.inl ⟨[], [], rfl, by decide, by decide⟩
  · decide +kernel
  · exact Or.inl ⟨[], [], rfl, by decide, by decide⟩
  · decide +kernel

end Attachment
end SchemaDump
