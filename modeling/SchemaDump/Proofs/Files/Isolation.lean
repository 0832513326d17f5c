import SchemaDump.Proofs.Files.Outcomes

/-! What stands in the files after a run, by what the run tells. Each object fares as it would if it
alone were written. -/
namespace SchemaDump

open SchemaDump.Tree

namespace Export

variable {codecs : Codecs} {t t' last : Tree} {out folder : Path} {name s residual : Text}
  {o : Object} {os : List Object} {outcomes : List (Object × Outcome)}
  {refused : Fault → WriteError}

/-- A text that is not written has left all files as they were. -/
theorem confined_of_failed {e : WriteError}
    (h : writeInto codecs t folder name s refused = (t', .ok (.failed e))) :
    Confined (· <+: folder) (fun _ => False) t t' := by
  have hfolders : Confined (· <+: folder) (fun _ => False) t (t.makeFolders folder).1 :=
    confined_makeFolders t folder
  rw [writeInto] at h
  split at h
  · next made hm =>
    cases h
    rwa [hm] at hfolders
  · next made hm =>
    rw [hm] at hfolders
    obtain ⟨result, hw, hresult⟩ := exists_of_map_eq_ok h
    obtain ⟨rfl, -⟩ | ⟨-, rfl⟩ := writeText_eq_ok hw
    · cases hresult
    · exact hfolders

/-- Files are put only where objects are written. -/
theorem confined_of_writeObjects
    (h : writeObjects codecs out t os = (last, .ok outcomes)) :
    Confined (IsFolderOf out os) (fun q => ∃ o ∈ writtenAmong outcomes, q = out ++ o.path) t
      last := by
  induction os generalizing t outcomes with
  | nil =>
    cases h
    exact .refl _ _ _
  | cons o os ih =>
    obtain ⟨after, outcome, rest, ho, hrest, rfl⟩ := exists_of_writeObjects_cons h
    have hfolders : ∀ q, q <+: out ++ [o.kind.folder] → IsFolderOf out (o :: os) q :=
      fun _ hq => isFolderOf_of_isPrefix List.mem_cons_self hq
    have hfirst : Confined (IsFolderOf out (o :: os))
        (fun q => ∃ o' ∈ writtenAmong ((o, outcome) :: rest), q = out ++ o'.path) t after := by
      cases outcome with
      | written =>
        have hconfined := confined_writeObject codecs out t o
        rw [ho] at hconfined
        exact hconfined.mono hfolders fun _ hq => ⟨o, by simp, hq⟩
      | failed e => exact (confined_of_failed ho).mono hfolders fun _ hq => hq.elim
    refine hfirst.trans ((ih hrest).mono (fun _ hq => hq.mono (List.subset_cons_self o os)) ?_)
    rintro q ⟨o', ho', hq⟩
    exact ⟨o', mem_writtenAmong_iff.mpr (List.mem_cons_of_mem _ (mem_writtenAmong_iff.mp ho')), hq⟩

/-- A run puts files only where it has written what it tells. -/
theorem confined_of_write {summary : Summary}
    (h : write codecs out t os residual = (last, .ok summary)) :
    Confined (IsFolderOf out os)
      (fun q => (∃ o ∈ summary.writtenObjects, q = out ++ o.path) ∨
        (summary.residualWritten = true ∧ q = out ++ [residualName.toList])) t last := by
  obtain ⟨after, ho, hw⟩ := exists_of_write_eq_ok h
  refine ((confined_of_writeObjects ho).mono (fun _ hq => hq) fun _ hq => Or.inl hq).trans ?_
  rw [Summary.residualWritten]
  rw [writeResidual] at hw
  split at hw
  · obtain ⟨rfl, -⟩ : after = last ∧ none = summary.residual := by simpa using hw
    exact .refl _ _ _
  · obtain ⟨outcome, hinto, houtcome⟩ := exists_of_map_eq_ok hw
    replace hinto : writeInto codecs after out residualName.toList residual
        (.residual (out ++ [residualName.toList])) = (last, .ok outcome) := hinto
    rw [← houtcome]
    cases outcome with
    | written =>
      have hconfined := confined_writeInto codecs after out residualName.toList residual
        (.residual (out ++ [residualName.toList]))
      rw [hinto] at hconfined
      exact hconfined.mono (fun _ hq => Or.inl hq) fun _ hq => Or.inr ⟨by simp, hq⟩
    | failed e => exact (confined_of_failed hinto).mono (fun _ hq => Or.inl hq) fun _ hq => hq.elim

/-- The file for the residual text holds it if it was written, and is as it was if not. -/
theorem residual_of_write {summary : Summary}
    (h : write codecs out t os residual = (last, .ok summary)) :
    (summary.residualWritten = true →
        Holds codecs.text last (out ++ [residualName.toList]) residual) ∧
      (summary.residualWritten = false →
        last.get? (out ++ [residualName.toList]) = t.get? (out ++ [residualName.toList])) := by
  constructor
  · intro hwritten
    obtain ⟨after, -, hw⟩ := exists_of_write_eq_ok h
    rw [Summary.residualWritten, decide_eq_true_eq] at hwritten
    rw [writeResidual, hwritten] at hw
    split at hw
    · simp at hw
    · obtain ⟨outcome, hinto, houtcome⟩ := exists_of_map_eq_ok hw
      obtain rfl := Option.some.inj houtcome
      obtain ⟨-, hholds, -⟩ | ⟨⟨e, he⟩, -⟩ := writeInto_eq_ok hinto
      · exact hholds
      · cases he
  · intro hfailed
    refine (confined_of_write h).get?_eq (not_isFolderOf_residual out os) ?_
    rintro (⟨o, -, hq⟩ | ⟨hwritten, -⟩)
    · exact path_ne_residual out o hq.symm
    · simp [hfailed] at hwritten

namespace Summary

theorem total_eq (s : Summary) : s.total = s.written + s.objectErrors.length := by
  obtain ⟨outcomes, written⟩ := s
  simp only [total, Summary.written, objectErrors]
  induction outcomes with
  | nil => rfl
  | cons e outcomes ih =>
    obtain ⟨o, _ | e⟩ := e
    · simp [Outcome.error?, ih]
      omega
    · simp [Outcome.error?, ih]
      omega

end Summary

/-- The folder of a text that is written is there, and its file is another path. -/
theorem get?_folder_of_writeInto
    (h : writeInto codecs t folder name s refused = (t', .ok .written)) :
    t'.get? folder = some .folder := by
  have hmade := makeFolders_snd t folder
  rw [writeInto] at h
  split at h
  · cases h
  · next made hm =>
    rw [hm] at hmade
    have hfolder := get?_makeFolders hmade.symm (List.prefix_refl folder)
    rw [hm] at hfolder
    obtain ⟨result, hw, hresult⟩ := exists_of_map_eq_ok h
    obtain ⟨-, -, hkeeps⟩ | ⟨⟨f, rfl⟩, -⟩ := writeText_eq_ok hw
    · refine hkeeps folder _ ?_ hfolder
      rw [List.mem_singleton]
      exact fun heq => Lists.not_isPrefix_concat folder name (heq ▸ List.prefix_refl _)
    · cases hresult

theorem get?_folder_of_writeObjects (h : writeObjects codecs out t os = (last, .ok outcomes))
    (ho : o ∈ writtenAmong outcomes) : last.get? (out ++ [o.kind.folder]) = some .folder := by
  induction os generalizing t outcomes with
  | nil =>
    cases h
    cases ho
  | cons o' os ih =>
    obtain ⟨after, outcome, rest, hfirst, hrest, rfl⟩ := exists_of_writeObjects_cons h
    cases outcome with
    | failed e => exact ih hrest ho
    | written =>
      obtain rfl | ho := List.mem_cons.mp ho
      · refine keeps_writeObjects hrest _ _ ?_ (get?_folder_of_writeInto hfirst)
        rw [List.mem_map]
        rintro ⟨o', -, hpath⟩
        exact object_path_not_isPrefix out o' o.kind (hpath ▸ List.prefix_refl _)
      · exact ih hrest ho

/-- Each object that was written has its folder, and in its file stands the last object that was
written to that path. -/
def HoldsLast (encoding : Encoding) (out : Path) (last : Tree)
    (outcomes : List (Object × Outcome)) : Prop :=
  ∀ o ∈ writtenAmong outcomes, last.get? (out ++ [o.kind.folder]) = some .folder ∧
    ∃ o' ∈ writtenAmong outcomes, lastAmong? outcomes o.path = some o' ∧ o'.path = o.path ∧
      Holds encoding last (out ++ o.path) o'.definition

/-- The objects whose files could be opened have their definitions there, but for those that share
their path with another of `among`. -/
def HoldsEach (encoding : Encoding) (out : Path) (t last : Tree) (os among : List Object) : Prop :=
  ∀ o ∈ os, outcomeOf out t o = .written → (∀ o' ∈ among, o'.path = o.path → o' = o) →
    Holds encoding last (out ++ o.path) o.definition

theorem holdsLast_of_write {summary : Summary}
    (h : write codecs out t os residual = (last, .ok summary)) :
    HoldsLast codecs.text out last summary.objects := by
  obtain ⟨after, hobjects, hkeeps⟩ := exists_of_write h
  intro o ho
  constructor
  · refine hkeeps _ _ ?_ (get?_folder_of_writeObjects hobjects ho)
    rw [List.mem_singleton]
    exact fun heq => not_isFolderOf_residual out [o] (Or.inr ⟨o, List.mem_cons_self, heq.symm⟩)
  · obtain ⟨o', hlast, ho', hpath⟩ := exists_lastAmong? ho
    refine ⟨o', ho', hlast, hpath, (holds_last_of_writeObjects hobjects hlast).of_keeps hkeeps ?_⟩
    simpa using path_ne_residual out o

theorem mem_writtenAmong_map_iff :
    o ∈ writtenAmong (os.map fun o => (o, outcomeOf out t o)) ↔
      o ∈ os ∧ outcomeOf out t o = .written := by
  rw [mem_writtenAmong_iff, List.mem_map]
  constructor
  · rintro ⟨o', ho', heq⟩
    obtain ⟨rfl, hwritten⟩ := Prod.mk.inj heq
    exact ⟨ho', hwritten⟩
  · rintro ⟨ho, hwritten⟩
    exact ⟨o, ho, by rw [hwritten]⟩

theorem holdsEach_of_write {summary : Summary}
    (h : write codecs out t os residual = (last, .ok summary))
    (hobjects : summary.objects = os.map fun o => (o, outcomeOf out t o)) :
    HoldsEach codecs.text out t last os os := by
  intro o ho hwritten hunique
  apply holds_of_written h _ hunique
  rw [hobjects]
  exact mem_writtenAmong_iff.mp (mem_writtenAmong_map_iff.mpr ⟨ho, hwritten⟩)

/-- A run of what is covered tries all objects, counts those that are written and reports the others
in their order, and the residual text last. What is written is there in the end. What it tells of
an object is what it would tell of that object alone, in whatever order the objects are written. -/
theorem write_isolates (hos : ∀ o ∈ os, codecs.CoversText o.definition)
    (hresidual : residual ≠ [] → codecs.CoversText residual)
    (hpaths : ∀ p, IsFileOf out os residual p → codecs.CoversPath p) (t : Tree) :
    ∃ last summary, write codecs out t os residual = (last, .ok summary) ∧
      summary.total = os.length ∧
      summary.total = summary.written + summary.objectErrors.length ∧
      summary.objects = os.map (fun o => (o, outcomeOf out t o)) ∧
      summary.objectErrors =
        os.filterMap (fun o => (outcomeOf out t o).error?.map (o.label, ·)) ∧
      summary.errors = summary.objectErrors ++
        (if residual = [] then [] else
          (residualOutcome out t).error?.toList.map (residualName, ·)) ∧
      HoldsLast codecs.text out last summary.objects ∧
      HoldsEach codecs.text out t last os os ∧
      (summary.residualWritten = true ↔ residual ≠ [] ∧ residualOutcome out t = .written) ∧
      (summary.residualWritten = true →
        Holds codecs.text last (out ++ [residualName.toList]) residual) ∧
      (summary.residualWritten = false →
        last.get? (out ++ [residualName.toList]) = t.get? (out ++ [residualName.toList])) ∧
      (∀ o ∈ os, ∃ alone,
        write codecs out t [o] [] = (alone, .ok ⟨[(o, outcomeOf out t o)], none⟩) ∧
          (outcomeOf out t o = .written →
            Holds codecs.text alone (out ++ o.path) o.definition)) ∧
      (∀ os', os'.Perm os → ∃ last' summary',
        write codecs out t os' residual = (last', .ok summary') ∧
          summary'.objects = os'.map (fun o => (o, outcomeOf out t o)) ∧
          summary'.objects.Perm summary.objects ∧ summary'.residual = summary.residual) := by
  have hsnd := write_snd hos hresidual hpaths t
  obtain ⟨last, result, hwrite⟩ : ∃ last result,
      write codecs out t os residual = (last, result) := ⟨_, _, rfl⟩
  rw [hwrite] at hsnd
  obtain rfl := hsnd
  obtain ⟨hholds, hkept⟩ := residual_of_write hwrite
  refine ⟨last, _, hwrite, ?_, Summary.total_eq _, rfl, ?_, ?_, holdsLast_of_write hwrite,
    holdsEach_of_write hwrite rfl, ?_, hholds, hkept, ?_, ?_⟩
  · simp [Summary.total]
  · simp [Summary.objectErrors, List.filterMap_map]
  · by_cases hnil : residual = [] <;> simp [Summary.errors, hnil]
  · by_cases hnil : residual = [] <;> simp [Summary.residualWritten, hnil]
  · intro o ho
    have hone : ∀ o' ∈ [o], codecs.CoversText o'.definition := by simpa using hos o ho
    have hpath : ∀ p, IsFileOf out [o] [] p → codecs.CoversPath p := by
      rintro p (⟨o', ho', rfl⟩ | ⟨hne, -⟩)
      · exact hpaths _ (Or.inl ⟨o', by simpa [List.mem_singleton.mp ho'] using ho, rfl⟩)
      · exact (hne rfl).elim
    have halone : write codecs out t [o] [] = ((write codecs out t [o] []).1,
        .ok ⟨[(o, outcomeOf out t o)], none⟩) :=
      Prod.ext rfl (write_snd hone (fun h => (h rfl).elim) hpath t)
    refine ⟨_, halone, fun hwritten => ?_⟩
    exact holdsEach_of_write halone rfl o List.mem_cons_self hwritten fun o' ho' _ =>
      List.mem_singleton.mp ho'
  · intro os' hperm
    have hpaths' : ∀ p, IsFileOf out os' residual p → codecs.CoversPath p :=
      fun p hp => hpaths p (hp.mono hperm.subset)
    have hsnd' := write_snd (fun o ho => hos o (hperm.subset ho)) hresidual hpaths' t
    exact ⟨_, _, Prod.ext rfl hsnd', rfl, hperm.map _, rfl⟩

/-- A file stands where the tables would be, and a folder where one of the views would be. -/
theorem write_isolates_blocked :
    let table : Object := ⟨.table, ['a'], ['t'], "CREATE TABLE a.t ();".toList,
      some "a.t".toList, none, none, none⟩
    let view : Object := ⟨.view, ['a'], ['v'], "CREATE VIEW a.v AS SELECT 1;".toList,
      some "a.v".toList, none, none, none⟩
    let schema : Object := ⟨.schema, ['a'], ['a'], "CREATE SCHEMA a;".toList,
      none, none, none, none⟩
    let t : Tree := { nodes := [([['o']], .folder), ([['o'], "tables".toList], .file []),
      ([['o'], "views".toList], .folder), ([['o'], "views".toList, "a.v.sql".toList], .folder)] }
    let rest := "SET a = 1;".toList
    let codecs : Codecs := ⟨.ascii, .utf8⟩
    (∀ o ∈ [table, view, schema], codecs.CoversText o.definition) ∧
      (rest ≠ [] → codecs.CoversText rest) ∧
      (∀ p, IsFileOf [['o']] [table, view, schema] rest p → codecs.CoversPath p) ∧
      ∃ last summary, write codecs [['o']] t [table, view, schema] rest = (last, .ok summary) ∧
        summary.total = 3 ∧ summary.residualWritten = true ∧
        summary.objects = [(table, .failed (.folder [['o'], "tables".toList])),
          (view, .failed (.object .view "a.v.sql".toList)), (schema, .written)] ∧
        last.get? [['o'], "schemas".toList] = some .folder ∧
        Holds .ascii last [['o'], "schemas".toList, "a.sql".toList] "CREATE SCHEMA a;".toList ∧
        Holds .ascii last [['o'], "residual.sql".toList] rest ∧
        ∃ last' summary', write codecs [['o']] t [schema, view, table] rest =
            (last', .ok summary') ∧ summary'.objects.Perm summary.objects := by
  intro table view schema t rest codecs
  have hos : ∀ o ∈ [table, view, schema], codecs.CoversText o.definition := by
    simp only [List.forall_mem_cons]
    exact ⟨⟨_, rfl⟩, ⟨_, rfl⟩, ⟨_, rfl⟩, by simp⟩
  have hrest : rest ≠ [] → codecs.CoversText rest := fun _ => ⟨_, rfl⟩
  have hpaths : ∀ p, IsFileOf [['o']] [table, view, schema] rest p → codecs.CoversPath p :=
    fun _ _ => ⟨_, rfl⟩
  obtain ⟨last, summary, hwrite, htotal, -, hobjects, -, -, hlast, heach, hresidual, hholds, -, -,
    hperm⟩ := write_isolates hos hrest hpaths t
  obtain ⟨last', summary', hwrite', -, hperm', -⟩ :=
    hperm [schema, view, table] (List.reverse_perm [table, view, schema])
  have houtcomes : summary.objects = [(table, .failed (.folder [['o'], "tables".toList])),
      (view, .failed (.object .view "a.v.sql".toList)), (schema, .written)] :=
    hobjects.trans (by decide +kernel)
  have hwritten : summary.residualWritten = true := hresidual.mpr (by decide +kernel)
  have hschema : schema ∈ writtenAmong summary.objects := by simp [houtcomes]
  have hfolder : last.get? ([['o']] ++ [schema.kind.folder]) = some .folder :=
    (hlast schema hschema).1
  have hfile : Holds .ascii last ([['o']] ++ schema.path) schema.definition :=
    heach schema (by simp) (by decide +kernel) (by decide +kernel)
  have hname : [['o']] ++ [schema.kind.folder] = [['o'], "schemas".toList] := by decide +kernel
  have hpath : [['o']] ++ schema.path = [['o'], "schemas".toList, "a.sql".toList] := by
    decide +kernel
  rw [hname] at hfolder
  rw [hpath] at hfile
  exact ⟨hos, hrest, hpaths, last, summary, hwrite, htotal, hwritten, houtcomes, hfolder, hfile,
    hholds hwritten, last', summary', hwrite', hperm'⟩

/-- The names of the file system are in ASCII, and that of one object is not. The run ends there,
though all definitions are covered, and the next object is not written. -/
theorem uncovered_path_ends_run :
    let table : Object := ⟨.table, "public".toList, ['é'], "CREATE TABLE a ();".toList,
      none, none, none, none⟩
    let view : Object := ⟨.view, "public".toList, ['v'], "CREATE VIEW v AS SELECT 1;".toList,
      none, none, none, none⟩
    let codecs : Codecs := ⟨.utf8, .ascii⟩
    (∀ o ∈ [table, view], codecs.CoversText o.definition) ∧
      outcomeOf [['o']] {} table = .written ∧ outcomeOf [['o']] {} view = .written ∧
      ∃ last f, write codecs [['o']] {} [table, view] [] = (last, .error f) ∧
        last.get? ([['o']] ++ view.path) = none := by
  intro table view codecs
  have h : (match write codecs [['o']] {} [table, view] [] with
      | (last, .error _) => decide (last.get? ([['o']] ++ view.path) = none)
      | _ => false) = true := by decide +kernel
  refine ⟨fun _ _ => ⟨_, rfl⟩, by decide +kernel, by decide +kernel, ?_⟩
  split at h
  · next last f hw => exact ⟨last, f, hw, of_decide_eq_true h⟩
  · cases h

end Export
end SchemaDump
