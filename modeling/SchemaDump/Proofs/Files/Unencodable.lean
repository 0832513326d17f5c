import SchemaDump.Proofs.Files.Isolation

/-! Texts that the encoding does not cover, and paths that the file system has no form for. The
first of them that is come to ends a run: what stood in the file of such a text is lost, and nothing
after it is written. -/
namespace SchemaDump

open SchemaDump.Tree

theorem Tree.Confined.get?_of_not_file {folders files : Path → Prop} {t t' : Tree} {q : Path}
    {n : Node} (h : Confined folders files t t') (hq : ¬ files q) (hn : t.get? q = some n) :
    t'.get? q = some n := by
  cases h.change q with
  | kept h => rw [h, hn]
  | made _ _ _ hnone _ => simp [hn] at hnone
  | put hfile _ _ _ => exact (hq hfile).elim

namespace Export

variable {codecs : Codecs} {t t' last after : Tree} {out folder p : Path} {name s residual : Text}
  {o : Object} {os os' before : List Object} {f : EncodeFault} {refused : Fault → WriteError}
  {outcomes : List (Object × Outcome)}

theorem eq_of_map_eq_error {α β : Type} {g : α → β} {w : Tree × Except EncodeFault α}
    (h : (w.1, w.2.map g) = (last, .error f)) : w = (last, .error f) := by
  obtain ⟨after, result⟩ := w
  cases result with
  | error f' => simpa [Except.map] using h
  | ok a => simp [Except.map] at h

theorem map_eq_error {α β : Type} {w : Tree × Except EncodeFault α} (h : w = (last, .error f))
    (g : α → β) : (w.1, w.2.map g) = (last, .error f) := by
  rw [h]
  rfl

/-- What the text that ends a run leaves at its path: an empty file if the file system has a form
for the path, and else what stood there. -/
def IsLeft (codecs : Codecs) (t last : Tree) (p : Path) : Prop :=
  (codecs.CoversPath p → last.get? p = some (.file [])) ∧
    (¬ codecs.CoversPath p → last.get? p = t.get? p)

theorem writeText_eq_error (h : writeText codecs t p s = (t', .error f)) :
    (codecs.CoversPath p ∧ t'.get? p = some (.file [])) ∨ (¬ codecs.CoversPath p ∧ t' = t) := by
  rw [writeText] at h
  split at h
  · next f' hpath =>
    cases h
    refine Or.inr ⟨?_, rfl⟩
    rintro ⟨b, hb⟩
    rw [hpath] at hb
    cases hb
  · next b hpath =>
    split at h
    · simp at h
    · next opened hw =>
      obtain ⟨hp, rfl⟩ := write_eq_ok hw
      split at h
      · cases h
        exact Or.inl ⟨⟨b, hpath⟩, get?_put_self hp _ _⟩
      · simp at h

/-- Only a file that can be opened is touched. -/
theorem writeInto_eq_error (h : writeInto codecs t folder name s refused = (t', .error f))
    (hstops : Stops codecs t folder name s f) :
    IsLeft codecs t t' (folder ++ [name]) ∧
      Confined (· <+: folder)
        (fun q => outcomeIn t folder name refused = .written ∧ q = folder ++ [name]) t t' := by
  have hfolders {files : Path → Prop} : Confined (· <+: folder) files t (t.makeFolders folder).1 :=
    confined_makeFolders t folder
  have hwhole := confined_writeInto codecs t folder name s refused
  rw [h] at hwhole
  rw [writeInto] at h
  split at h
  · simp at h
  · next made hm =>
    rw [hm] at hfolders
    obtain ⟨hcovers, hfile⟩ | ⟨hcovers, rfl⟩ := writeText_eq_error (eq_of_map_eq_error h)
    · obtain ⟨hmake, hpath | ⟨-, hopen, -⟩⟩ := hstops
      · obtain ⟨b, hb⟩ := hcovers
        simp [hb] at hpath
      · have hwritten : outcomeIn t folder name refused = .written :=
          outcomeIn_eq_written_iff_opens.mpr ⟨hmake, hopen⟩
        refine ⟨⟨fun _ => hfile, fun hno => (hno hcovers).elim⟩, ?_⟩
        exact hwhole.mono (fun _ hq => hq) fun _ hq => ⟨hwritten, hq⟩
    · refine ⟨⟨fun hyes => (hcovers hyes).elim, fun _ => ?_⟩, hfolders⟩
      have hnone : Confined (· <+: folder) (fun _ => False) t t' := hfolders
      exact hnone.get?_eq (Lists.not_isPrefix_concat folder name) id

/-- A fault that ends the run of some objects ends the run of more. -/
theorem writeObjects_append_of_error (h : writeObjects codecs out t os = (after, .ok outcomes))
    (h' : writeObjects codecs out after os' = (last, .error f)) :
    writeObjects codecs out t (os ++ os') = (last, .error f) := by
  induction os generalizing t outcomes with
  | nil =>
    cases h
    exact h'
  | cons o os ih =>
    obtain ⟨made, outcome, rest, ho, hrest, rfl⟩ := exists_of_writeObjects_cons h
    rw [List.cons_append, writeObjects, ho]
    exact map_eq_error (ih hrest) _

/-- Either no object stops the run, or there is a first that does. -/
theorem exists_first_stop (codecs : Codecs) (out : Path) (t : Tree) (os : List Object) :
    (∀ o ∈ os, ∀ f, ¬ StopsAt codecs out t o f) ∨
      ∃ before o after f, os = before ++ o :: after ∧
        (∀ o' ∈ before, ∀ f, ¬ StopsAt codecs out t o' f) ∧
        StopsAt codecs out t o f := by
  induction os with
  | nil => exact Or.inl (by simp)
  | cons o os ih =>
    by_cases ho : ∃ f, StopsAt codecs out t o f
    · obtain ⟨f, hf⟩ := ho
      exact Or.inr ⟨[], o, os, f, rfl, by simp, hf⟩
    · rw [not_exists] at ho
      rcases ih with hos | ⟨before, o', after, f, rfl, hbefore, hf⟩
      · exact Or.inl (List.forall_mem_cons.mpr ⟨ho, hos⟩)
      · exact Or.inr ⟨o :: before, o', after, f, rfl, List.forall_mem_cons.mpr ⟨ho, hbefore⟩, hf⟩

/-- The files that are opened for the objects. -/
def IsOpened (out : Path) (t : Tree) (os : List Object) (q : Path) : Prop :=
  ∃ o ∈ os, outcomeOf out t o = .written ∧ q = out ++ o.path

theorem IsOpened.isFileOf (h : IsOpened out t os p) : IsFileOf out os [] p := by
  obtain ⟨o, ho, -, hp⟩ := h
  exact Or.inl ⟨o, ho, hp⟩

/-- Objects none of which stops the run are all tried. -/
theorem exists_writeObjects
    (h : ∀ o ∈ os, ∀ f, ¬ StopsAt codecs out t o f) :
    ∃ last, writeObjects codecs out t os =
        (last, .ok (os.map fun o => (o, outcomeOf out t o))) ∧
      HoldsEach codecs.text out t last os os ∧
      Confined (IsFolderOf out os) (IsOpened out t os) t last := by
  have hwrite : writeObjects codecs out t os = ((writeObjects codecs out t os).1,
      .ok (os.map fun o => (o, outcomeOf out t o))) := Prod.ext rfl (writeObjects_snd h)
  refine ⟨_, hwrite, ?_, (confined_of_writeObjects hwrite).mono (fun _ hq => hq) ?_⟩
  · intro o ho hwritten hunique
    apply holds_of_writeObjects hwrite _ hunique
    exact mem_writtenAmong_iff.mp (mem_writtenAmong_map_iff.mpr ⟨ho, hwritten⟩)
  · rintro q ⟨o, ho, rfl⟩
    obtain ⟨hmem, hwritten⟩ := mem_writtenAmong_map_iff.mp ho
    exact ⟨o, hmem, hwritten, rfl⟩

/-- Where nothing stops the run, it tells of all objects. -/
theorem exists_write_of_not_stops
    (h : ∀ o ∈ os, ∀ f, ¬ StopsAt codecs out t o f)
    (hresidual : residual ≠ [] → ∀ f, ¬ StopsAtResidual codecs out t residual f) :
    ∃ last summary, write codecs out t os residual = (last, .ok summary) ∧
      summary.objects = os.map (fun o => (o, outcomeOf out t o)) ∧
      summary.residual = (if residual = [] then none else some (residualOutcome out t)) ∧
      HoldsEach codecs.text out t last os os ∧
      (summary.residualWritten = true →
        Holds codecs.text last (out ++ [residualName.toList]) residual) ∧
      Confined (IsFolderOf out os)
        (fun q => IsOpened out t os q ∨
          (summary.residualWritten = true ∧ q = out ++ [residualName.toList])) t last := by
  have hsnd := write_snd_of_not_stops h hresidual
  obtain ⟨last, result, hwrite⟩ : ∃ last result,
      write codecs out t os residual = (last, result) := ⟨_, _, rfl⟩
  rw [hwrite] at hsnd
  obtain rfl := hsnd
  refine ⟨last, _, hwrite, rfl, rfl, ?_, (residual_of_write hwrite).1, ?_⟩
  · intro o ho hwritten hunique
    apply holds_of_written hwrite _ hunique
    exact mem_writtenAmong_iff.mp (mem_writtenAmong_map_iff.mpr ⟨ho, hwritten⟩)
  · refine (confined_of_write hwrite).mono (fun _ hq => hq) ?_
    rintro q (⟨o, ho, rfl⟩ | hq)
    · obtain ⟨hmem, hwritten⟩ := mem_writtenAmong_map_iff.mp ho
      exact Or.inl ⟨o, hmem, hwritten, rfl⟩
    · exact Or.inr hq

/-- Objects of one path have one fate if the file system has no form for it. -/
theorem stopsAt_of_path_eq {o' : Object} (h : StopsAt codecs out t o f)
    (hcovers : ¬ codecs.CoversPath (out ++ o.path)) (hpath : o'.path = o.path) :
    StopsAt codecs out t o' f := by
  have hfolder : o'.kind.folder = o.kind.folder := (List.cons.inj hpath).1
  obtain ⟨hmake, herror | ⟨hyes, -⟩⟩ := h
  · refine ⟨by rwa [hfolder], Or.inl ?_⟩
    rwa [folder_append_fileName, hpath, ← folder_append_fileName]
  · exact (hcovers (folder_append_fileName out o ▸ hyes)).elim

/-- The first object that stops the run leaves its file empty, if the file system has a form for its
path, and nothing is written after it. -/
theorem exists_write_of_stop (hbefore : ∀ o' ∈ before, ∀ f, ¬ StopsAt codecs out t o' f)
    (h : StopsAt codecs out t o f) (os : List Object) (residual : Text) :
    ∃ last, write codecs out t (before ++ o :: os) residual = (last, .error f) ∧
      IsLeft codecs t last (out ++ o.path) ∧
      HoldsEach codecs.text out t last before (before ++ [o]) ∧
      Confined (IsFolderOf out (before ++ [o])) (IsOpened out t (before ++ [o])) t last := by
  obtain ⟨made, hmade, hholds, hconfined⟩ := exists_writeObjects hbefore
  have hwide : Confined (IsFolderOf out before) (IsFileOf out before []) t made :=
    hconfined.mono (fun _ hq => hq) fun _ hq => hq.isFileOf
  have hstops : StopsAt codecs out made o f := by rwa [stopsAt_of_confined hwide]
  obtain ⟨last, hlast⟩ : ∃ last, writeObject codecs out made o = (last, .error f) :=
    ⟨_, Prod.ext rfl (writeInto_snd_of_stops hstops)⟩
  obtain ⟨⟨hempty, hkept⟩, hone⟩ := writeInto_eq_error hlast hstops
  rw [folder_append_fileName] at hempty hkept
  have hobjects : writeObjects codecs out made (o :: os) = (last, .error f) := by
    rw [writeObjects, hlast]
  refine ⟨last, ?_, ⟨hempty, fun hcovers => ?_⟩, ?_, ?_⟩
  · rw [write, writeObjects_append_of_error hmade hobjects]
  · refine (hkept hcovers).trans (hconfined.get?_eq (not_isFolderOf_path out before o) ?_)
    -- an object of this path would have stopped the run before
    rintro ⟨o', ho', -, hpath⟩
    exact hbefore o' ho' f (stopsAt_of_path_eq h hcovers (List.append_cancel_left hpath).symm)
  · intro o' ho' hwritten hunique
    have hne : out ++ o'.path ≠ out ++ o.path := by
      intro hpath
      have heq : o = o' :=
        hunique o (by simp) (List.append_cancel_left hpath).symm
      exact hbefore o' ho' f (heq ▸ h)
    obtain ⟨content, hcontent, hget⟩ := hholds o' ho' hwritten fun o'' ho'' =>
      hunique o'' (List.mem_append_left _ ho'')
    refine ⟨content, hcontent, hone.get?_of_not_file ?_ hget⟩
    rw [folder_append_fileName]
    exact fun hq => hne hq.2
  · refine (hconfined.mono ?_ ?_).trans (hone.mono ?_ ?_)
    · exact fun q hq => hq.mono (List.subset_append_left _ _)
    · rintro q ⟨o', ho', hwritten, rfl⟩
      exact ⟨o', List.mem_append_left _ ho', hwritten, rfl⟩
    · exact fun q hq => isFolderOf_of_isPrefix (by simp) hq
    · rintro q ⟨hwritten, rfl⟩
      refine ⟨o, by simp, ?_, folder_append_fileName out o⟩
      rwa [← outcomeOf_of_confined hwide]

/-- A residual text that stops the run leaves its file empty, if the file system has a form for its
path. All objects have been tried. -/
theorem exists_write_of_residual_stop (hos : ∀ o ∈ os, ∀ f, ¬ StopsAt codecs out t o f)
    (hne : residual ≠ []) (h : StopsAtResidual codecs out t residual f) :
    ∃ last, write codecs out t os residual = (last, .error f) ∧
      IsLeft codecs t last (out ++ [residualName.toList]) ∧
      HoldsEach codecs.text out t last os os ∧
      Confined (IsFolderOf out os)
        (fun q => IsOpened out t os q ∨
          (residualOutcome out t = .written ∧ q = out ++ [residualName.toList])) t last := by
  obtain ⟨made, hmade, hholds, hconfined⟩ := exists_writeObjects hos
  have hwide : Confined (IsFolderOf out os) (IsFileOf out os []) t made :=
    hconfined.mono (fun _ hq => hq) fun _ hq => hq.isFileOf
  have hstops : StopsAtResidual codecs out made residual f := by
    rwa [stopsAtResidual_of_confined hwide]
  obtain ⟨last, hlast⟩ : ∃ last, writeInto codecs made out residualName.toList residual
      (.residual (out ++ [residualName.toList])) = (last, .error f) :=
    ⟨_, Prod.ext rfl (writeInto_snd_of_stops hstops)⟩
  obtain ⟨⟨hempty, hkept⟩, hone⟩ := writeInto_eq_error hlast hstops
  have hresidual : writeResidual codecs out made residual = (last, .error f) := by
    rw [writeResidual, if_neg (by simpa using hne)]
    exact map_eq_error hlast some
  refine ⟨last, ?_, ⟨hempty, fun hcovers => ?_⟩, ?_, ?_⟩
  · rw [write, hmade]
    exact map_eq_error hresidual _
  · refine (hkept hcovers).trans (hconfined.get?_eq (not_isFolderOf_residual out os) ?_)
    rintro ⟨o, -, -, hpath⟩
    exact path_ne_residual out o hpath.symm
  · intro o ho hwritten hunique
    obtain ⟨content, hcontent, hget⟩ := hholds o ho hwritten hunique
    exact ⟨content, hcontent, hone.get?_of_not_file (fun hq => path_ne_residual out o hq.2) hget⟩
  · refine (hconfined.mono (fun _ hq => hq) fun _ hq => Or.inl hq).trans (hone.mono ?_ ?_)
    · exact fun q hq => Or.inl hq
    · rintro q ⟨hwritten, rfl⟩
      have houtcome : residualOutcome out t = .written :=
        residualOutcome_of_confined hwide ▸ hwritten
      exact Or.inr ⟨houtcome, rfl⟩

/-- A run tells of all objects and of the residual text just if nothing stops it. Else it ends with
the fault of the first text that the encoding does not cover and whose file can be opened, or whose
path the file system's encoding does not cover. A file that was opened is left empty, what was to be
written before it is written, and nothing is written after it. -/
theorem write_ends_at_unencodable (codecs : Codecs) (out : Path) (t : Tree) (os : List Object)
    (residual : Text) :
    ((∀ o ∈ os, ∀ f, ¬ StopsAt codecs out t o f) ∧
      (residual ≠ [] → ∀ f, ¬ StopsAtResidual codecs out t residual f) ∧
      ∃ last summary, write codecs out t os residual = (last, .ok summary) ∧
        summary.objects = os.map (fun o => (o, outcomeOf out t o)) ∧
        summary.residual = (if residual = [] then none else some (residualOutcome out t)) ∧
        HoldsEach codecs.text out t last os os ∧
        (summary.residualWritten = true →
          Holds codecs.text last (out ++ [residualName.toList]) residual) ∧
        Confined (IsFolderOf out os)
          (fun q => IsOpened out t os q ∨
            (summary.residualWritten = true ∧ q = out ++ [residualName.toList])) t last) ∨
    (∃ before o after f, os = before ++ o :: after ∧
      (∀ o' ∈ before, ∀ f, ¬ StopsAt codecs out t o' f) ∧
      StopsAt codecs out t o f ∧
      ∃ last, write codecs out t os residual = (last, .error f) ∧
        IsLeft codecs t last (out ++ o.path) ∧
        HoldsEach codecs.text out t last before (before ++ [o]) ∧
        Confined (IsFolderOf out (before ++ [o])) (IsOpened out t (before ++ [o])) t last) ∨
    (residual ≠ [] ∧ (∀ o ∈ os, ∀ f, ¬ StopsAt codecs out t o f) ∧
      ∃ f, StopsAtResidual codecs out t residual f ∧
      ∃ last, write codecs out t os residual = (last, .error f) ∧
        IsLeft codecs t last (out ++ [residualName.toList]) ∧
        HoldsEach codecs.text out t last os os ∧
        Confined (IsFolderOf out os)
          (fun q => IsOpened out t os q ∨
            (residualOutcome out t = .written ∧ q = out ++ [residualName.toList])) t last) := by
  rcases exists_first_stop codecs out t os with hos | ⟨before, o, after, f, rfl, hbefore, h⟩
  · by_cases hstop : residual ≠ [] ∧ ∃ f, StopsAtResidual codecs out t residual f
    · obtain ⟨hne, f, h⟩ := hstop
      exact Or.inr (Or.inr ⟨hne, hos, f, h, exists_write_of_residual_stop hos hne h⟩)
    · have hresidual : residual ≠ [] → ∀ f, ¬ StopsAtResidual codecs out t residual f :=
        fun hne f h => hstop ⟨hne, f, h⟩
      exact Or.inl ⟨hos, hresidual, exists_write_of_not_stops hos hresidual⟩
  · exact Or.inr (Or.inl ⟨before, o, after, f, rfl, hbefore, h,
      exists_write_of_stop hbefore h after residual⟩)

/-- One object is not covered by the encoding. The run ends there, the file that stood at its path
is emptied, and neither the next object nor the residual text is written. -/
theorem unencodable_object_ends_run :
    let table : Object := ⟨.table, "public".toList, ['a'], "CREATE TABLE a (é int);".toList,
      none, none, none, none⟩
    let view : Object := ⟨.view, "public".toList, ['v'], "CREATE VIEW v AS SELECT 1;".toList,
      none, none, none, none⟩
    let t : Tree := { nodes := [([['o']], .folder), ([['o'], "tables".toList], .folder),
      ([['o'], "tables".toList, "a.sql".toList], .file [0x2D, 0x2D])] }
    outcomeOf [['o']] t view = .written ∧ residualOutcome [['o']] t = .written ∧
      ∃ last f, write ⟨.ascii, .utf8⟩ [['o']] t [table, view] "SET a = 1;".toList =
          (last, .error f) ∧
        last.get? ([['o']] ++ table.path) = some (.file []) ∧
        last.get? ([['o']] ++ view.path) = none ∧
        last.get? [['o'], residualName.toList] = none := by
  intro table view t
  have h : (match write ⟨.ascii, .utf8⟩ [['o']] t [table, view] "SET a = 1;".toList with
      | (last, .error _) => decide (last.get? ([['o']] ++ table.path) = some (.file []) ∧
          last.get? ([['o']] ++ view.path) = none ∧
          last.get? [['o'], residualName.toList] = none)
      | _ => false) = true := by decide +kernel
  refine ⟨by decide +kernel, by decide +kernel, ?_⟩
  split at h
  · next last f hw => exact ⟨last, f, hw, of_decide_eq_true h⟩
  · cases h

end Export
end SchemaDump
