import SchemaDump.Proofs.Files.Fresh
import SchemaDump.Proofs.Files.Isolation

/-! Dumps taken apart into a folder that is not there before and where nothing is refused. The files
in it afterwards are those of the dump, but for those whose paths are not allowed. -/
namespace SchemaDump

open SchemaDump.Tree

/-- The files that a dump comes to, by their paths in the output folder, and the text of each. -/
def Dump.files (d : Dump) : List (Path × Text) :=
  d.objects.map (fun o => (o.path, o.definition)) ++
    if d.residual = [] then [] else [([Export.residualName.toList], d.residual)]

theorem Dump.mem_files_iff {d : Dump} {q : Path} {s : Text} :
    (q, s) ∈ d.files ↔ (∃ o ∈ d.objects, o.path = q ∧ o.definition = s) ∨
      (d.residual ≠ [] ∧ q = [Export.residualName.toList] ∧ s = d.residual) := by
  by_cases h : d.residual = [] <;> simp [files, h]

namespace Tree

variable {t : Tree} {p q out : Path}

/-- Below a folder that is absent, and on the way to it, there is no file. -/
theorem IsClosed.get?_ne_file (h : t.IsClosed) (habsent : t.get? out = none)
    (hparent : t.get? out.dropLast = some .folder) (hq : q <+: out ++ p) (content : Bytes) :
    t.get? q ≠ some (.file content) := by
  obtain hq | ⟨r, rfl⟩ := List.prefix_or_prefix_of_prefix hq (List.prefix_append out p)
  · obtain rfl | ⟨parent, name, rfl⟩ := List.eq_nil_or_concat' out
    · cases habsent
    · rw [List.dropLast_concat] at hparent
      obtain rfl | hq := List.prefix_concat_iff.mp hq
      · simp [habsent]
      · simp [h.get?_of_isPrefix hparent hq]
  · simp [h.get?_append habsent r]

end Tree

namespace Export

section

variable {t last : Tree} {out folder q : Path} {d : Dump} {o : Object} {s : Text}
  {content : Bytes} {summary : Summary} (hclosed : t.IsClosed) (habsent : t.get? out = none)
  (hparent : t.get? out.dropLast = some .folder) (hopen : t.IsOpen out)

include hclosed habsent hparent hopen

/-- In the absent folder, nothing but its path can keep a file from being written. -/
theorem outcomeIn_eq_written_iff_isAllowed (hfolder : out <+: folder) (name : Text)
    (refused : Fault → WriteError) :
    outcomeIn t folder name refused = .written ↔ (folder ++ [name]).isAllowed = true := by
  rw [outcomeIn_eq_written_iff hopen hfolder, and_iff_left]
  obtain ⟨p, rfl⟩ := hfolder
  refine ⟨fun q hq => hclosed.get?_ne_file habsent hparent hq, ?_⟩
  rw [List.append_assoc, hclosed.get?_append habsent]
  simp

theorem outcomeOf_eq_written_iff (o : Object) :
    outcomeOf out t o = .written ↔ (out ++ o.path).isAllowed = true := by
  rw [← folder_append_fileName]
  exact outcomeIn_eq_written_iff_isAllowed hclosed habsent hparent hopen
    (List.prefix_append _ _) _ _

theorem residualOutcome_eq_written_iff :
    residualOutcome out t = .written ↔ (out ++ [residualName.toList]).isAllowed = true :=
  outcomeIn_eq_written_iff_isAllowed hclosed habsent hparent hopen (List.prefix_refl _) _ _

theorem mem_objects_iff (h : write .utf8 out t d.objects d.residual = (last, .ok summary)) :
    (o, .written) ∈ summary.objects ↔ o ∈ d.objects ∧ (out ++ o.path).isAllowed = true := by
  rw [← outcomeOf_eq_written_iff hclosed habsent hparent hopen o, summary_of_write_utf8 h,
    ← mem_writtenAmong_iff, mem_writtenAmong_map_iff]

theorem residualWritten_iff (h : write .utf8 out t d.objects d.residual = (last, .ok summary)) :
    summary.residualWritten = true ↔
      d.residual ≠ [] ∧ (out ++ [residualName.toList]).isAllowed = true := by
  rw [← residualOutcome_eq_written_iff hclosed habsent hparent hopen, summary_of_write_utf8 h]
  by_cases hnil : d.residual = [] <;> simp [Summary.residualWritten, hnil]

/-- A file of the dump is there afterwards if its path is allowed. -/
theorem get?_of_mem_files (hunique : (d.objects.map Object.path).Nodup)
    (h : write .utf8 out t d.objects d.residual = (last, .ok summary)) (hs : (q, s) ∈ d.files)
    (hallowed : (out ++ q).isAllowed = true) :
    last.get? (out ++ q) = some (.file (Utf8.encode s)) := by
  obtain ⟨o, ho, rfl, rfl⟩ | ⟨hne, rfl, rfl⟩ := Dump.mem_files_iff.mp hs
  · have hwritten := (mem_objects_iff hclosed habsent hparent hopen h).mpr ⟨ho, hallowed⟩
    exact holds_utf8_iff.mp (holds_of_written h hwritten fun o' ho' hpath =>
      List.inj_on_of_nodup_map hunique ho' ho hpath)
  · have hwritten := (residualWritten_iff hclosed habsent hparent hopen h).mpr ⟨hne, hallowed⟩
    exact holds_utf8_iff.mp ((residual_of_write h).1 hwritten)

/-- Every file that is there afterwards is one of the dump, and its path is allowed. -/
theorem exists_mem_files (h : write .utf8 out t d.objects d.residual = (last, .ok summary))
    (hfile : last.get? (out ++ q) = some (.file content)) :
    (out ++ q).isAllowed = true ∧ ∃ s, (q, s) ∈ d.files := by
  -- it was not there before, so it was put there
  cases (confined_of_write h).change (out ++ q) with
  | kept hkept =>
    rw [hkept, hclosed.get?_append habsent] at hfile
    cases hfile
  | made _ _ _ _ hfolder =>
    rw [hfolder] at hfile
    cases hfile
  | put hq _ _ _ =>
    obtain ⟨o, ho, hq⟩ | ⟨hwritten, hq⟩ := hq
    · obtain rfl := List.append_cancel_left hq
      obtain ⟨ho, hallowed⟩ :=
        (mem_objects_iff hclosed habsent hparent hopen h).mp (mem_writtenAmong_iff.mp ho)
      exact ⟨hallowed, _, Dump.mem_files_iff.mpr (Or.inl ⟨o, ho, rfl, rfl⟩)⟩
    · obtain rfl := List.append_cancel_left hq
      obtain ⟨hne, hallowed⟩ := (residualWritten_iff hclosed habsent hparent hopen h).mp hwritten
      exact ⟨hallowed, _, Dump.mem_files_iff.mpr (Or.inr ⟨hne, rfl, rfl⟩)⟩

theorem get?_write_eq_file_iff (hunique : (d.objects.map Object.path).Nodup)
    (h : write .utf8 out t d.objects d.residual = (last, .ok summary)) :
    last.get? (out ++ q) = some (.file content) ↔
      (out ++ q).isAllowed = true ∧ ∃ s, (q, s) ∈ d.files ∧ content = Utf8.encode s := by
  constructor
  · intro hfile
    obtain ⟨hallowed, s, hs⟩ := exists_mem_files hclosed habsent hparent hopen h hfile
    rw [get?_of_mem_files hclosed habsent hparent hopen hunique h hs hallowed] at hfile
    cases hfile
    exact ⟨hallowed, s, hs, rfl⟩
  · rintro ⟨hallowed, s, hs, rfl⟩
    exact get?_of_mem_files hclosed habsent hparent hopen hunique h hs hallowed

end

end Export
end SchemaDump
