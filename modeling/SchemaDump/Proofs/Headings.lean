import SchemaDump.Dump
import SchemaDump.Proofs.Classification
import SchemaDump.Proofs.Readings
import SchemaDump.Proofs.Statement.Tokens
import Mathlib.Data.List.Infix

/-! Where the heading that decides begins. Headings are looked for in the text as it stands, in
comments and strings too. But each begins with one of two keywords: where no comment, string or
quotation has these, the heading that decides begins in none of them. -/
namespace SchemaDump

open Reading Statement

variable {α β : Type} {s u rest : Text} {r : Reading α} {ts us vs : List Token} {t : Token}
  {c : Classified}

namespace Heading

/-- A keyword of headings in any letter case, and a blank. -/
def opens (s : Text) : Bool :=
  ["CREATE", "ALTER"].any fun w => ((Text.afterWord w.toList s).bind List.head?).any Text.isBlank

/-- A keyword of headings and a blank stand somewhere in the text. -/
def occurs (s : Text) : Bool := s.tails.any opens

theorem opens_iff : opens s = true ↔ ∃ w ∈ ["CREATE", "ALTER"], ∃ word c rest,
    s = word ++ c :: rest ∧ word.map Text.capital = w.toList ∧ Text.isBlank c = true := by
  rw [opens, List.any_eq_true]
  refine exists_congr fun w => and_congr_right fun _ => ?_
  constructor
  · intro h
    obtain ⟨c, hc, hb⟩ := (Option.any_eq_true _ _).mp h
    obtain ⟨after, ha, hh⟩ := Option.bind_eq_some_iff.mp hc
    obtain ⟨word, rfl, hw⟩ := Text.afterWord_eq_some_iff.mp ha
    obtain ⟨rest, rfl⟩ := List.head?_eq_some_iff.mp hh
    exact ⟨word, c, rest, rfl, hw, hb⟩
  · rintro ⟨word, c, rest, rfl, hw, hb⟩
    have ha : Text.afterWord w.toList (word ++ c :: rest) = some (c :: rest) :=
      Text.afterWord_eq_some_iff.mpr ⟨word, rfl, hw⟩
    simp [ha, hb]

theorem occurs_of_opens (h : opens u = true) (hu : u <:+ s) : occurs s = true :=
  List.any_eq_true.mpr ⟨u, (List.mem_tails _ _).mpr hu, h⟩

/-- Where the reading succeeds, a keyword of headings and a blank stand first. -/
def IsOpened (r : Reading α) : Prop := ∀ s a rest, (a, rest) ∈ r s → opens s = true

theorem IsOpened.bind (h : IsOpened r) (f : α → Reading β) : IsOpened (r >>= f) := by
  intro s b rest hb
  obtain ⟨a, u, ha, -⟩ := mem_bind.mp hb
  exact h s a u ha

theorem isOpened_keyword {w : String} (hw : w ∈ ["CREATE", "ALTER"]) (f : Unit → Reading β) :
    IsOpened (word w >>= fun _ => blanks >>= f) := by
  intro s b rest hb
  obtain ⟨_, u, hu, hb⟩ := mem_bind.mp hb
  obtain ⟨_, v, hv, -⟩ := mem_bind.mp hb
  obtain ⟨front, rfl, hf⟩ := Text.afterWord_eq_some_iff.mp (mem_word.mp hu)
  obtain ⟨c, more, rfl, hc, -⟩ := mem_blanks.mp hv
  exact opens_iff.mpr ⟨w, hw, front, c, more, rfl, hf, hc⟩

theorem isOpened_alteredTable : IsOpened alteredTable :=
  isOpened_keyword (List.mem_cons_of_mem _ List.mem_cons_self) _

theorem isOpened_creation (what : Reading Unit) : IsOpened (creation what) :=
  isOpened_keyword List.mem_cons_self _

end Heading

theorem Kind.isOpened_heading (k : Kind) : Heading.IsOpened k.heading := by
  cases k with
  | schema | extension | index => exact Heading.isOpened_keyword List.mem_cons_self _
  | sequence => exact (Heading.isOpened_alteredTable.bind _).bind _
  | constraint => exact Heading.isOpened_alteredTable.bind _
  | type | domain | function | procedure | table | view => exact Heading.isOpened_creation _

namespace Classified

theorem opens_of_decides (h : Decides s c) : Heading.opens c.definition = true := by
  obtain ⟨rest, more, hr⟩ := h.reads
  exact c.kind.isOpened_heading c.definition c.heading rest (hr ▸ List.mem_cons_self)

theorem Decides.definition_ne_nil (h : Decides s c) : c.definition ≠ [] := by
  intro hnil
  have ho := opens_of_decides h
  rw [hnil] at ho
  cases ho

/-- No closer is a letter of a keyword. -/
theorem not_mem_of_closers : ∀ k ∈ closers, ∀ w ∈ ["CREATE", "ALTER"],
    Text.capital k ∉ w.toList := by
  simp only [closers, List.mem_cons, List.not_mem_nil, or_false, forall_eq_or_imp, forall_eq]
  decide

/-- A keyword that begins in what is no code ends there, with the blank behind it: its letters are
no closers. -/
theorem occurs_of_opens_append {x y : Text} (h : Grammar s (us ++ t :: vs)) (ht : t.isCode = false)
    (hxy : t.text = x ++ y) (hy : y ≠ []) (ho : Heading.opens (y ++ Token.textOf vs) = true) :
    Heading.occurs t.text = true := by
  obtain ⟨w, hw, word, d, rest, he, hword, hd⟩ := Heading.opens_iff.mp ho
  have hin : ∃ z, y = word ++ d :: z := by
    by_contra hout
    have hvs : vs ≠ [] := by
      rintro rfl
      exact hout ⟨rest, by simpa using he⟩
    obtain ⟨front, k, hk, hmem⟩ := h.exists_closer ht hvs
    have hky : k ∈ y := by
      have hlast : y.getLast? = some k := by
        rw [← List.getLast?_append_of_ne_nil x hy, ← hxy, hk, List.getLast?_concat]
      exact List.mem_of_getLast? hlast
    have hkw : k ∈ word := by
      obtain ⟨z, rfl, -⟩ | ⟨z, hz, hr⟩ := List.append_eq_append_iff.mp he
      · exact List.mem_append_left z hky
      · cases z with
        | nil => simpa [hz] using hky
        | cons e z =>
          cases hr
          exact (hout ⟨z, hz⟩).elim
    exact not_mem_of_closers k hmem w hw (hword ▸ List.mem_map_of_mem hkw)
  obtain ⟨z, rfl⟩ := hin
  have hopens : Heading.opens (word ++ d :: z) = true :=
    Heading.opens_iff.mpr ⟨w, hw, word, d, z, rfl, hword, hd⟩
  exact Heading.occurs_of_opens hopens ⟨x, hxy.symm⟩

/-- Where no comment, string or quotation holds a keyword of headings, the heading that decides
begins in code. -/
theorem Decides.exists_code (h : Decides s c) (hts : Grammar s ts)
    (hn : ∀ t ∈ ts, t.isCode = false → Heading.occurs t.text = false) :
    ∃ us d vs, ts = us ++ .loose (.plain d) :: vs ∧ Token.textOf us = c.residual := by
  have ho := opens_of_decides h
  obtain ⟨us, t, vs, x, y, rfl, htext, hy, hx, hdef⟩ :=
    Token.exists_token_at (hts.textOf_eq.trans h.cut.symm) h.definition_ne_nil
  cases hcode : t.isCode with
  | false =>
    have hocc := occurs_of_opens_append hts hcode htext hy (hdef ▸ ho)
    rw [hn t (by simp) hcode] at hocc
    cases hocc
  | true =>
    cases t with
    | construct k ps => simp [Token.isCode] at hcode
    | loose p =>
      cases p with
      | dollar d => simp [Token.isCode] at hcode
      | plain d =>
        have hx' : x = [] := by
          cases x with
          | nil => rfl
          | cons e x => simp_all [Token.text, Piece.text]
        exact ⟨us, d, vs, rfl, by simp [hx, hx']⟩

/-- What decides on a statement of a dump is the first heading of the first kind that has one
anywhere in the statement's text. It begins in code if no comment, string or quotation holds a
keyword of headings and a blank. -/
theorem begins_in_code (s : Text) : ∀ statement ∈ Dump.statements s, ∀ c,
    (ofStatement? (Text.trim statement) = some c ↔ Decides (Text.trim statement) c) ∧
      (ofStatement? (Text.trim statement) = some c →
        ∀ ts, Grammar (Text.trim statement) ts →
          (∀ t ∈ ts, t.isCode = false → Heading.occurs t.text = false) →
          ∃ us d vs, ts = us ++ .loose (.plain d) :: vs ∧ Token.textOf us = c.residual) := by
  intro statement _ c
  refine ⟨ofStatement?_eq_some_iff, fun hc ts hts hn => ?_⟩
  exact (decides_of_ofStatement? hc).exists_code hts hn

theorem begins_in_code_behind_comment :
    let s := "-- CREATEd by hand\nCREATE TABLE a (x text DEFAULT 'ALTERed');".toList
    let c : Classified :=
      { kind := .table
        heading := { schema := "public".toList, name := some "a".toList }
        definition := "CREATE TABLE a (x text DEFAULT 'ALTERed');".toList
        residual := "-- CREATEd by hand\n".toList }
    s ∈ Dump.statements s ∧ ofStatement? (Text.trim s) = some c ∧
      (∀ t ∈ Token.ofText (Text.trim s), t.isCode = false → Heading.occurs t.text = false) ∧
      Decides (Text.trim s) c ∧
      ∃ us d vs, Token.ofText (Text.trim s) = us ++ .loose (.plain d) :: vs ∧
        Token.textOf us = c.residual := by
  intro s c
  have hs : s ∈ Dump.statements s := by decide +kernel
  have hc : ofStatement? (Text.trim s) = some c := by decide +kernel
  have hn : ∀ t ∈ Token.ofText (Text.trim s), t.isCode = false → Heading.occurs t.text = false := by
    decide +kernel
  obtain ⟨hd, hcode⟩ := begins_in_code s s hs c
  exact ⟨hs, hc, hn, hd.mp hc, hcode hc _ (grammar_ofText _) hn⟩

/-- A heading in the body of a function decides, if its kind is tried before functions. -/
theorem heading_in_quotation_decides :
    let s := "CREATE FUNCTION f() RETURNS int AS $$ CREATE TYPE t AS (x int) $$;".toList
    let c : Classified :=
      { kind := .type
        heading := { schema := "public".toList, name := some "t".toList }
        definition := "CREATE TYPE t AS (x int) $$;".toList
        residual := "CREATE FUNCTION f() RETURNS int AS $$ ".toList }
    s ∈ Dump.statements s ∧ ofStatement? (Text.trim s) = some c ∧
      Token.loose (.dollar "$$ CREATE TYPE t AS (x int) $$".toList) ∈ Token.ofText (Text.trim s) ∧
      ¬ ∃ us d vs, Grammar (Text.trim s) (us ++ .loose (.plain d) :: vs) ∧
        Token.textOf us = c.residual := by
  intro s c
  refine ⟨by decide +kernel, by decide +kernel, by decide +kernel, ?_⟩
  rintro ⟨us, d, vs, hts, hus⟩
  have heq := (grammar_iff (grammar_ofText (Text.trim s))).mp hts
  have hlen : (Token.ofText (Text.trim s)).length = 37 := by decide +kernel
  have hnone : ∀ n < 37, Token.textOf ((Token.ofText (Text.trim s)).take n) ≠ c.residual := by
    decide +kernel
  refine hnone us.length ?_ ?_
  · rw [← hlen, ← heq, List.length_append, List.length_cons]
    omega
  · rw [← heq, List.take_left, hus]

end Classified
end SchemaDump
