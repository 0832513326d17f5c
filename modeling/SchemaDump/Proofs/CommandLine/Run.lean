import SchemaDump.CommandLine.Run
import SchemaDump.Proofs.CommandLine.Options
import SchemaDump.Proofs.Files.Isolation

/-! What a run of the program does to the file tree: nothing before it begins to write, and nothing
outside the output folder then. -/
namespace SchemaDump

theorem Path.exists_resolve? {s : Text} (h : '\x00' ∉ s) (base : Path) :
    ∃ p, resolve? base s = some p := by
  rw [resolve?, if_neg h]
  exact ⟨_, rfl⟩

namespace CommandLine

open Export

variable {o : Options} {file out base : Path} {t : Tree} {arguments : List Text}

/-- A run fails before it writes, is a dry one, or writes and reports what it did not. -/
theorem process_cases (o : Options) (file out : Path) (t : Tree) :
    (∃ e, Source.read t file .utf8 = .error e ∧ (process o file out t).status = 1 ∧
        (process o file out t).tree = t) ∨
      (∃ content, Source.read t file .utf8 = .ok content ∧ o.dryRun = true ∧
        (process o file out t).status = 0 ∧ (process o file out t).tree = t) ∨
      (∃ content last summary, Source.read t file .utf8 = .ok content ∧ o.dryRun = false ∧
        write .utf8 out t (Dump.parse content).objects (Dump.parse content).residual =
          (last, .ok summary) ∧
        (process o file out t).status = 0 ∧ (process o file out t).tree = last ∧
        ∀ e ∈ summary.errors, .error e.1 e.2 ∈ (process o file out t).log) := by
  cases hread : Source.read t file .utf8 with
  | error e =>
    refine Or.inl ⟨e, rfl, ?_⟩
    simp [process, hread]
  | ok content =>
    cases hdry : o.dryRun with
    | true =>
      refine Or.inr (Or.inl ⟨content, rfl, rfl, ?_⟩)
      simp [process, hread, hdry]
    | false =>
      obtain ⟨last, hwrite⟩ :=
        exists_write_utf8 out t (Dump.parse content).objects (Dump.parse content).residual
      generalize hsummary : Summary.mk _ _ = summary at hwrite
      refine Or.inr (Or.inr ⟨content, last, summary, rfl, rfl, hwrite, ?_⟩)
      simp only [process, hread, hdry, hwrite]
      refine ⟨rfl, rfl, fun e he => ?_⟩
      have hne : summary.errors.isEmpty = false := by
        cases herrors : summary.errors with
        | nil => simp [herrors] at he
        | cons => rfl
      have hline : Line.error e.1 e.2 ∈ writeLines out summary := by
        simp only [writeLines, hne, Bool.false_eq_true, if_false, List.mem_append, List.mem_cons,
          List.mem_map]
        exact Or.inr (Or.inr ⟨e, he, rfl⟩)
      exact List.mem_append_right _ hline

/-- The program runs as soon as both paths can be passed on, and leaves no error out of its log. -/
theorem exists_run (o : Options) (t : Tree) (hfile : Path.resolve? base o.file = some file)
    (hout : Path.resolve? base o.directory = some out) :
    ∃ r, run? o base t = some r ∧ r.status = (process o file out t).status ∧
      r.tree = (process o file out t).tree ∧
      ∀ label e, Line.error label e ∈ (process o file out t).log → Line.error label e ∈ r.log := by
  have hrun : run? o base t = some { process o file out t with
      log := (process o file out t).log.filter fun line => o.verbose || !line.isDetail } := by
    rw [run?, hfile, hout]
    rfl
  refine ⟨_, hrun, rfl, rfl, fun label e h => ?_⟩
  exact List.mem_filter.mpr ⟨h, by simp [Line.isDetail]⟩

/-- A residual text that is not written is reported. -/
theorem exists_residual_error {last : Tree} {os : List Object} {residual : Text} {summary : Summary}
    (h : write .utf8 out t os residual = (last, .ok summary)) (hne : residual ≠ [])
    (hno : summary.residualWritten = false) : ∃ e, (residualName, e) ∈ summary.errors := by
  rw [summary_of_write_utf8 h, if_neg hne] at hno ⊢
  cases houtcome : residualOutcome out t with
  | written => simp [Summary.residualWritten, houtcome] at hno
  | failed e => exact ⟨e, List.mem_append_right _ (by simp [Outcome.error?])⟩

/-- A run that ends with status 1, in the reading of its arguments or as a dry run leaves the file
tree as it was. One that ends with status 0 otherwise has read the dump, and has written each object
and the residual text or reported it. What is written stands in its file, and nothing has changed
outside the output folder but that the folders on the way to it are made. -/
theorem main_changes_output_only (hnul : ∀ argument ∈ arguments, '\x00' ∉ argument) (base : Path)
    (t : Tree) :
    ∃ r, main? arguments base t = some r ∧
      (r.status = 1 → r.tree = t) ∧
      (∀ stop, Options.parse arguments = .error stop → r.tree = t) ∧
      (∀ o, Options.parse arguments = .ok o → o.dryRun = true → r.tree = t) ∧
      (∀ o, Options.parse arguments = .ok o → o.dryRun = false → r.status = 0 →
        ∃ file out content summary, Path.resolve? base o.file = some file ∧
          Path.resolve? base o.directory = some out ∧
          Source.read t file .utf8 = .ok content ∧
          summary.objects.map Prod.fst = (Dump.parse content).objects ∧
          write .utf8 out t (Dump.parse content).objects (Dump.parse content).residual =
            (r.tree, .ok summary) ∧
          (∀ e ∈ summary.objects,
            (e.2 = .written ∧
              ((∀ o' ∈ (Dump.parse content).objects, o'.path = e.1.path → o' = e.1) →
                Holds .utf8 r.tree (out ++ e.1.path) e.1.definition)) ∨
            ∃ error, e.2 = .failed error ∧ .error e.1.label error ∈ r.log) ∧
          HoldsLast .utf8 out r.tree summary.objects ∧
          ((Dump.parse content).residual ≠ [] →
            (summary.residualWritten = true ∧
              Holds .utf8 r.tree (out ++ [residualName.toList]) (Dump.parse content).residual) ∨
            ∃ error, .error residualName error ∈ r.log) ∧
          ∀ q, r.tree.get? q = t.get? q ∨ out <+: q ∨
            (q <+: out ∧ t.get? q = none ∧ r.tree.get? q = some .folder)) := by
  cases hparse : Options.parse arguments with
  | error stop =>
    have htree : (stopped t stop).tree = t := by cases stop <;> rfl
    refine ⟨stopped t stop, by simp [main?, hparse], fun _ => htree, fun _ _ => htree, ?_, ?_⟩ <;>
      exact fun o h => by cases h
  | ok o =>
    obtain ⟨hcleanFile, hcleanOut⟩ := Options.not_mem_of_parse hparse hnul (by decide)
    obtain ⟨file, hfile⟩ := Path.exists_resolve? hcleanFile base
    obtain ⟨out, hout⟩ := Path.exists_resolve? hcleanOut base
    obtain ⟨r, hrun, hstatus, htree, hlog⟩ := exists_run o t hfile hout
    have hmain : main? arguments base t = some r := by rw [main?, hparse]; exact hrun
    refine ⟨r, hmain, ?_⟩
    obtain ⟨e, -, hone, hkept⟩ | ⟨content, -, hdry, hzero, hkept⟩ |
      ⟨content, last, summary, hread, hdry, hwrite, hzero, hlast, herrors⟩ :=
      process_cases o file out t
    · -- nothing could be read
      have hsame : r.tree = t := htree.trans hkept
      refine ⟨fun _ => hsame, fun _ _ => hsame, fun _ _ _ => hsame, fun _ _ _ h => ?_⟩
      rw [hstatus, hone] at h
      cases h
    · have hsame : r.tree = t := htree.trans hkept
      refine ⟨fun _ => hsame, fun _ _ => hsame, fun _ _ _ => hsame, fun o' ho' hdry' _ => ?_⟩
      cases ho'
      rw [hdry] at hdry'
      cases hdry'
    · refine ⟨fun h => ?_, fun stop h => (by cases h), fun o' ho' hdry' => ?_, fun o' ho' _ _ => ?_⟩
      · rw [hstatus, hzero] at h
        cases h
      · cases ho'
        rw [hdry] at hdry'
        cases hdry'
      · cases ho'
        obtain rfl : last = r.tree := (htree.trans hlast).symm
        have hfirst : (write .utf8 out t (Dump.parse content).objects
            (Dump.parse content).residual).1 = r.tree := by rw [hwrite]
        obtain ⟨after, hobjects, -⟩ := exists_of_write hwrite
        refine ⟨file, out, content, summary, hfile, hout, hread, map_fst_of_writeObjects hobjects,
          hwrite, fun e he => ?_, holdsLast_of_write hwrite, fun hne => ?_, fun q => ?_⟩
        · obtain ⟨o', _ | error⟩ := e
          · exact Or.inl ⟨rfl, holds_of_written hwrite he⟩
          · refine Or.inr ⟨error, rfl, hlog _ _ (herrors (o'.label, error) ?_)⟩
            exact List.mem_append_left _ (List.mem_filterMap.mpr ⟨_, he, rfl⟩)
        · cases hwritten : summary.residualWritten with
          | true => exact Or.inl ⟨rfl, (residual_of_write hwrite).1 hwritten⟩
          | false =>
            obtain ⟨error, he⟩ := exists_residual_error hwrite hne hwritten
            exact Or.inr ⟨error, hlog _ _ (herrors _ he)⟩
        · rw [← hfirst]
          exact write_outside .utf8 out t _ _ q

/-- The output folder is in a folder that has to be made as well. The table and the residual text
stand in their files. -/
theorem main_changes_output_only_nested :
    let arguments := ["-vf".toList, "in.sql".toList, "--dir=a/out".toList]
    let t : Tree := { nodes := [([['w']], .folder), ([['w'], "in.sql".toList],
      .file (Utf8.encode "SET x = 1;\nCREATE TABLE t (a int);".toList))] }
    let out : Path := [['w'], ['a'], "out".toList]
    let table : Object := ⟨.table, "public".toList, ['t'], "CREATE TABLE t (a int);".toList,
      some "public.t".toList, none, none, none⟩
    (∀ argument ∈ arguments, '\x00' ∉ argument) ∧
      ∃ r content, main? arguments [['w']] t = some r ∧ r.status = 0 ∧
        Source.read t [['w'], "in.sql".toList] .utf8 = .ok content ∧
        Holds .utf8 r.tree [['w'], ['a'], "out".toList, "tables".toList, "public.t.sql".toList]
          table.definition ∧
        Holds .utf8 r.tree [['w'], ['a'], "out".toList, "residual.sql".toList]
          "SET x = 1;".toList ∧
        ∀ q, r.tree.get? q = t.get? q ∨ out <+: q ∨
          (q <+: out ∧ t.get? q = none ∧ r.tree.get? q = some .folder) := by
  intro arguments t out table
  have hnul : ∀ argument ∈ arguments, '\x00' ∉ argument := by decide
  have hparse : Options.parse arguments =
      .ok { file := "in.sql".toList, directory := "a/out".toList, verbose := true } := by
    decide +kernel
  obtain ⟨r, hmain, -, -, -, hrun⟩ := main_changes_output_only hnul [['w']] t
  obtain ⟨hzero, hquiet⟩ : r.status = 0 ∧ ∀ label e, Line.error label e ∉ r.log := by
    have hcount : (main? arguments [['w']] t).map (fun r => (r.status, r.log.countP fun
        | .error _ _ => true
        | _ => false)) = some (0, 0) := by decide +kernel
    rw [hmain, Option.map_some, Option.some.injEq, Prod.mk.injEq, List.countP_eq_zero] at hcount
    exact ⟨hcount.1, fun label e he => hcount.2 _ he rfl⟩
  obtain ⟨file, out', content, summary, hfile, hout, hread, hobjects, -, heach, -, hresidual,
    houtside⟩ := hrun _ hparse rfl hzero
  obtain rfl : [['w'], "in.sql".toList] = file := Option.some.inj hfile
  obtain rfl : out = out' := Option.some.inj hout
  obtain rfl : "SET x = 1;\nCREATE TABLE t (a int);".toList = content :=
    Except.ok.inj ((by decide +kernel : Source.read t [['w'], "in.sql".toList] .utf8 = .ok
      "SET x = 1;\nCREATE TABLE t (a int);".toList).symm.trans hread)
  obtain ⟨hparsed, hrest⟩ :
      (Dump.parse "SET x = 1;\nCREATE TABLE t (a int);".toList).objects = [table] ∧
        (Dump.parse "SET x = 1;\nCREATE TABLE t (a int);".toList).residual =
          "SET x = 1;".toList := by decide +kernel
  rw [hparsed] at hobjects heach
  rw [hrest] at hresidual
  have htable : Holds .utf8 r.tree (out ++ table.path) table.definition := by
    obtain ⟨e, he, hfst⟩ : ∃ e ∈ summary.objects, e.1 = table :=
      List.mem_map.mp (by simp [hobjects])
    obtain ⟨-, hholds⟩ | ⟨error, -, hlog⟩ := heach e he
    · rw [hfst] at hholds
      exact hholds (by simp)
    · exact (hquiet _ _ hlog).elim
  have hheld : Holds .utf8 r.tree (out ++ [residualName.toList]) "SET x = 1;".toList := by
    obtain ⟨-, hholds⟩ | ⟨error, hlog⟩ := hresidual (by decide)
    · exact hholds
    · exact (hquiet _ _ hlog).elim
  have hpath : out ++ table.path =
      [['w'], ['a'], "out".toList, "tables".toList, "public.t.sql".toList] := by decide +kernel
  exact ⟨hnul, r, _, hmain, hzero, hread, hpath ▸ htable, hheld, houtside⟩

end CommandLine
end SchemaDump
