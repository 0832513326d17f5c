import SchemaDump.Proofs.Files.Fresh
import SchemaDump.Proofs.Files.Source
import SchemaDump.Proofs.Origins

/-! From a dump file to the files of its objects. What has received nothing is a slice of the dump,
but for the line ends: they have become line feeds when the dump was read. -/
namespace SchemaDump

open Text SchemaDump.Tree

variable {s : Text} {o : Object} {t : Tree} {dump out : Path} {content : Bytes}

theorem Text.trim_isInfix (s : Text) : trim s <:+: s := by
  have hstart : trimStart s <:+ s := List.dropWhile_suffix _
  have hend : trim s <+: trimStart s := List.rdropWhile_prefix _ _
  exact hend.isInfix.trans hstart.isInfix

/-- A definition that has received nothing stands in the dump as it is. -/
theorem Dump.definition_isInfix (ho : o ∈ (Dump.parse s).objects) (hsequences : o.sequences = none)
    (hconstraints : o.constraints = none) (hindexes : o.indexes = none) : o.definition <:+: s := by
  obtain ⟨h⟩ := exists_origin ho
  have hdefinition : h.classified.definition <:+ trim h.statement :=
    ⟨_, Classified.residual_append_definition h.recognised⟩
  have hmem : h.statement ∈ Statement.split [';'] s := by
    have hstatements := h.statements_eq
    rw [statements] at hstatements
    simp [hstatements]
  have hstatement : h.statement <:+: s := by
    have hflat := List.infix_of_mem_flatten hmem
    rwa [Statement.flatten_split] at hflat
  rw [h.eq_toObject hsequences hconstraints hindexes]
  exact hdefinition.isInfix.trans ((trim_isInfix _).trans hstatement)

namespace Export

/-- The bytes of a slice of the dump, with line feeds at its line ends, are those of the slice if it
has no carriage return and never else. -/
theorem encode_lineFeeds_eq_iff :
    Utf8.encode (Source.lineFeeds s) = Utf8.encode s ↔ 13 ∉ Utf8.encode s := by
  have hmem (s : Text) : 13 ∈ Utf8.encode s ↔ '\r' ∈ s := Utf8.mem_encode_iff (by decide) rfl
  constructor
  · intro h
    rw [← h, hmem]
    exact Source.not_mem_lineFeeds s
  · intro h
    rw [Source.lineFeeds_eq_self (mt (hmem s).mpr h)]

/-- A dump file in UTF-8 that is not blank is read, and all its objects are tried in a fresh folder.
An object that has received nothing and shares its path with no other is written if the path is
allowed, and has a slice of the dump file in its file, with line feeds at the line ends: the very
slice only if no carriage return is in it. -/
theorem written_slices (hread : t.read dump = .ok content) (hdecode : Utf8.decode content = .ok s)
    (hblank : trim s ≠ []) (hout : t.IsFresh out) :
    ∃ text last summary, Source.read t dump .utf8 = .ok text ∧
      write .utf8 out t (Dump.parse text).objects (Dump.parse text).residual =
        (last, .ok summary) ∧
      ∀ o ∈ (Dump.parse text).objects,
        o.sequences = none → o.constraints = none → o.indexes = none →
        (∀ o' ∈ (Dump.parse text).objects, o'.path = o.path → o' = o) →
        (Path.fits o.fileName = true → Path.isShort (out ++ o.path) = true →
          (o, .written) ∈ summary.objects) ∧
        ((o, .written) ∈ summary.objects → ∃ front slice back,
          content = front ++ Utf8.encode slice ++ back ∧
          last.get? (out ++ o.path) = some (.file (Utf8.encode (Source.lineFeeds slice))) ∧
          (Utf8.encode (Source.lineFeeds slice) = Utf8.encode slice ↔
            13 ∉ Utf8.encode slice)) := by
  have htext : Source.read t dump .utf8 = .ok (Source.lineFeeds s) :=
    Source.read_eq_ok hread hdecode hblank
  generalize htext' : Source.lineFeeds s = text at htext
  obtain ⟨last, summary, hwrite, hall⟩ := exists_write_of_isReady (isReady_of_isFresh hout)
    (Dump.parse text).objects (Dump.parse text).residual
  refine ⟨text, last, summary, htext, hwrite, ?_⟩
  intro o ho hsequences hconstraints hindexes hunique
  refine ⟨hall o ho, fun hwritten => ?_⟩
  -- where the definition begins and ends in the text, the file can be cut as well
  obtain ⟨x, y, hxy⟩ := Dump.definition_isInfix ho hsequences hconstraints hindexes
  rw [← htext', List.append_assoc] at hxy
  obtain ⟨front, rest, rfl, -, hrest⟩ := Source.exists_append_of_lineFeeds hxy.symm
  obtain ⟨slice, back, rfl, hslice, -⟩ := Source.exists_append_of_lineFeeds hrest
  refine ⟨Utf8.encode front, slice, Utf8.encode back, ?_, ?_, encode_lineFeeds_eq_iff⟩
  · rw [← Utf8.encode_of_decode hdecode]
    simp
  · obtain ⟨bytes, hbytes, hfile⟩ := holds_of_written hwrite hwritten hunique
    rw [hfile, hslice]
    exact congrArg (fun b => some (Node.file b)) (Except.ok.inj hbytes).symm

/-- The table has lost a carriage return, and is no slice of the dump file. The view is one. -/
theorem written_slices_mixed_line_ends :
    let s := "CREATE TABLE t (\r\n  a int);\nCREATE VIEW v AS\n  SELECT 1;\r".toList
    let t : Tree := { nodes := [(["dump.sql".toList], .file (Utf8.encode s))] }
    let table : Object := ⟨.table, "public".toList, ['t'], "CREATE TABLE t (\n  a int);".toList,
      some "public.t".toList, none, none, none⟩
    let view : Object := ⟨.view, "public".toList, ['v'], "CREATE VIEW v AS\n  SELECT 1;".toList,
      some "public.v".toList, none, none, none⟩
    t.read ["dump.sql".toList] = .ok (Utf8.encode s) ∧
      Utf8.decode (Utf8.encode s) = .ok s ∧ trim s ≠ [] ∧ t.IsFresh ["out".toList] ∧
      ∃ text last summary, Source.read t ["dump.sql".toList] .utf8 = .ok text ∧
        (Dump.parse text).objects = [table, view] ∧
        write .utf8 ["out".toList] t (Dump.parse text).objects (Dump.parse text).residual =
          (last, .ok summary) ∧
        summary.objects = [(table, .written), (view, .written)] ∧
        last.get? ["out".toList, "tables".toList, "public.t.sql".toList] =
          some (.file (Utf8.encode table.definition)) ∧
        (∃ front slice back, Utf8.encode s = front ++ Utf8.encode slice ++ back ∧
          13 ∈ Utf8.encode slice ∧
          Utf8.encode (Source.lineFeeds slice) = Utf8.encode table.definition) ∧
        ¬ Utf8.encode table.definition <:+: Utf8.encode s ∧
        last.get? ["out".toList, "views".toList, "public.v.sql".toList] =
          some (.file (Utf8.encode view.definition)) ∧
        Utf8.encode view.definition <:+: Utf8.encode s := by
  intro s t table view
  have hread : t.read ["dump.sql".toList] = .ok (Utf8.encode s) := by decide +kernel
  have hdecode : Utf8.decode (Utf8.encode s) = .ok s := by decide +kernel
  have hblank : trim s ≠ [] := by decide +kernel
  have hout : t.IsFresh ["out".toList] := by
    have hget (q : Path) : t.get? ("out".toList :: q) = none := by
      simp [t, get?, List.lookup_cons]
    refine ⟨by decide, fun q hq content => ?_, fun q _ => hget q, isOpen_of_refusals_eq_nil rfl _⟩
    cases q with
    | nil => simp [get?]
    | cons d q =>
      obtain ⟨rfl, -⟩ := List.cons_prefix_cons.mp hq
      rw [hget q]
      simp
  obtain ⟨text, last, summary, htext, hwrite, hslices⟩ :=
    written_slices hread hdecode hblank hout
  obtain rfl : "CREATE TABLE t (\n  a int);\nCREATE VIEW v AS\n  SELECT 1;\n".toList = text :=
    Except.ok.inj ((by decide +kernel : Source.read t ["dump.sql".toList] .utf8 = .ok
      "CREATE TABLE t (\n  a int);\nCREATE VIEW v AS\n  SELECT 1;\n".toList).symm.trans htext)
  generalize hd : Dump.parse _ = d at hwrite hslices ⊢
  have hobjects : d.objects = [table, view] := by
    rw [← hd]
    decide +kernel
  have houtcome : ∀ o ∈ [table, view], outcomeOf ["out".toList] t o = .written := by
    decide +kernel
  have houtcomes : summary.objects = [(table, .written), (view, .written)] := by
    rw [summary_of_write_utf8 hwrite, hobjects]
    simp only [List.map_cons, List.map_nil, houtcome table (by simp), houtcome view (by simp)]
  have hunique : ∀ o ∈ d.objects, ∀ o' ∈ d.objects, o'.path = o.path → o' = o := by
    rw [hobjects]
    decide +kernel
  have hwritten : ∀ o ∈ d.objects, (o, .written) ∈ summary.objects := by
    rw [hobjects, houtcomes]
    simp
  have hfile : ∀ o ∈ d.objects, last.get? (["out".toList] ++ o.path) =
      some (.file (Utf8.encode o.definition)) := fun o ho =>
    holds_utf8_iff.mp (holds_of_written hwrite (hwritten o ho) (hunique o ho))
  have htable : table ∈ d.objects := by simp [hobjects]
  have hview : view ∈ d.objects := by simp [hobjects]
  have hloss : ¬ Utf8.encode table.definition <:+: Utf8.encode s := by decide +kernel
  obtain ⟨front, slice, back, hcut, hheld, hsame⟩ :=
    (hslices table htable rfl rfl rfl (hunique table htable)).2 (hwritten table htable)
  have hbytes : Utf8.encode (Source.lineFeeds slice) = Utf8.encode table.definition := by
    rw [hfile table htable, Option.some.injEq, Node.file.injEq] at hheld
    exact hheld.symm
  have hreturn : 13 ∈ Utf8.encode slice := by
    by_contra hno
    rw [hsame.mpr hno] at hbytes
    exact hloss ⟨front, back, by rw [← hbytes, hcut]⟩
  have htablePath : ["out".toList] ++ table.path =
      ["out".toList, "tables".toList, "public.t.sql".toList] := by decide +kernel
  have hviewPath : ["out".toList] ++ view.path =
      ["out".toList, "views".toList, "public.v.sql".toList] := by decide +kernel
  exact ⟨hread, hdecode, hblank, hout, _, last, summary, htext, hd ▸ hobjects, hd ▸ hwrite,
    houtcomes, htablePath ▸ hfile table htable, ⟨front, slice, back, hcut, hreturn, hbytes⟩, hloss,
    hviewPath ▸ hfile view hview, by decide +kernel⟩

/-- The carriage returns of a dump are in none of the files written from it. -/
theorem carriage_returns_are_lost :
    let s := "CREATE TABLE t (\r\n  a int\r\n);\r\n".toList
    let t : Tree := { nodes := [(["dump.sql".toList], .file (Utf8.encode s))] }
    Utf8.decode (Utf8.encode s) = .ok s ∧ trim s ≠ [] ∧
      ∃ text o last summary bytes, Source.read t ["dump.sql".toList] .utf8 = .ok text ∧
        (Dump.parse text).objects = [o] ∧
        o.sequences = none ∧ o.constraints = none ∧ o.indexes = none ∧
        write .utf8 ["out".toList] t (Dump.parse text).objects (Dump.parse text).residual =
          (last, .ok summary) ∧
        summary.objects = [(o, .written)] ∧
        last.get? (["out".toList] ++ o.path) = some (.file bytes) ∧
        ¬ bytes <:+: Utf8.encode s := by
  intro s t
  let text := "CREATE TABLE t (\n  a int\n);\n".toList
  let o : Object :=
    { kind := .table
      schema := "public".toList
      name := "t".toList
      definition := "CREATE TABLE t (\n  a int\n);".toList
      qualifiedName := some "public.t".toList }
  have h : (match write .utf8 ["out".toList] t (Dump.parse text).objects
        (Dump.parse text).residual with
      | (last, .ok summary) => decide (summary.objects = [(o, .written)] ∧
          last.get? (["out".toList] ++ o.path) = some (.file (Utf8.encode o.definition)))
      | _ => false) = true := by decide +kernel
  split at h
  · next last summary hw =>
    obtain ⟨hobjects, hfile⟩ := of_decide_eq_true h
    exact ⟨by decide +kernel, by decide +kernel, text, o, last, summary,
      Utf8.encode o.definition, by decide +kernel, by decide +kernel, rfl, rfl, rfl, hw, hobjects,
      hfile, by decide +kernel⟩
  · cases h

end Export
end SchemaDump
