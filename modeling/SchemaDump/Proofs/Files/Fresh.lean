import SchemaDump.Proofs.Encoding.Utf8
import SchemaDump.Proofs.Files.Outcomes

/-! Writes that succeed. Where nothing is refused, a file is written just if its path is allowed, no
file is in the way to it and no folder has its name; in a folder that is fresh or absent, just if
its path is allowed. -/
namespace SchemaDump

open SchemaDump.Tree

namespace Path

variable {p q : Path}

theorem isShort_of_append (hp : p ≠ []) (h : isShort (p ++ q) = true) : isShort p = true := by
  have hrender : (p ++ q).render = p.render ++ q.flatMap ('/' :: ·) := by
    simp [render, hp]
  rw [isShort, decide_eq_true_eq] at h ⊢
  rw [hrender, Utf8.encode_append, List.length_append] at h
  omega

theorem isAllowed_iff : p.isAllowed = true ↔ p.isShort = true ∧ ∀ name ∈ p, fits name = true := by
  simp [isAllowed]

theorem isAllowed_of_append (h : (p ++ q).isAllowed = true) : p.isAllowed = true := by
  obtain ⟨hshort, hfits⟩ := isAllowed_iff.mp h
  by_cases hp : p = []
  · rw [hp]
    decide
  · exact isAllowed_iff.mpr
      ⟨isShort_of_append hp hshort, fun name hm => hfits name (List.mem_append_left q hm)⟩

end Path

namespace Tree

variable {t : Tree} {p q out folder : Path} {name : Text}

/-- Nothing is refused in the folder `out`. Whoever goes on to it is let through, and may make what
is missing on the way. -/
structure IsOpen (t : Tree) (out : Path) : Prop where
  pass : ∀ q, q <+: out → t.isPassable q = true
  add : ∀ q, q <+: out → t.get? q = none → t.refusal? .add q.dropLast = none
  below : ∀ a q, t.refusal? a (out ++ q) = none

/-- Nothing stands in the folder or in the way to it, and nothing is refused. -/
structure IsFresh (t : Tree) (p : Path) : Prop where
  fits : ∀ name ∈ p, Path.fits name = true
  noFile : ∀ q, q <+: p → ∀ content, t.get? q ≠ some (.file content)
  empty : ∀ q, q ≠ [] → t.get? (p ++ q) = none
  opens : t.IsOpen p

theorem isOpen_of_refusals_eq_nil (h : t.refusals = []) (out : Path) : t.IsOpen out := by
  have hnone (a : Access) (p : Path) : t.refusal? a p = none := by simp [refusal?, h]
  exact ⟨fun q _ => by simp [isPassable, hnone], fun _ _ _ => hnone _ _, fun _ _ => hnone _ _⟩

namespace IsOpen

variable (h : t.IsOpen out) (hout : out <+: folder)

include h hout

theorem refusal?_append (a : Access) (q : Path) : t.refusal? a (folder ++ q) = none := by
  obtain ⟨r, rfl⟩ := hout
  rw [List.append_assoc]
  exact h.below a _

theorem isPassable_of_isPrefix (hq : q <+: folder) : t.isPassable q = true := by
  obtain hq | ⟨r, rfl⟩ := List.prefix_or_prefix_of_prefix hq hout
  · exact h.pass q hq
  · simp [isPassable, h.below]

theorem refusal?_add_of_isPrefix (hq : q <+: folder) (hn : t.get? q = none) :
    t.refusal? .add q.dropLast = none := by
  obtain hq | ⟨r, rfl⟩ := List.prefix_or_prefix_of_prefix hq hout
  · exact h.add q hq hn
  · obtain rfl | ⟨r, name, rfl⟩ := List.eq_nil_or_concat' r
    · exact h.add _ (by simp) hn
    · rw [← List.append_assoc, List.dropLast_concat]
      exact h.below _ _

/-- A folder that may be there or be made is none where a file stands. -/
theorem admits_iff (hq : q <+: folder) (hallowed : q.isAllowed = true) :
    t.admits q = true ↔ ∀ content, t.get? q ≠ some (.file content) := by
  have hpass : t.isPassable q.dropLast = true :=
    h.isPassable_of_isPrefix hout ((List.dropLast_prefix q).trans hq)
  rw [admits, hpass, Bool.true_and]
  obtain hn | ⟨_ | content, hn⟩ := (t.get? q).eq_none_or_eq_some
  · have hlast : q.getLast?.all Path.fits = true := by
      have hfits := (Path.isAllowed_iff.mp hallowed).2
      cases hname : q.getLast? with
      | none => rfl
      | some name => exact hfits name (List.mem_of_getLast? hname)
    simp [hn, hlast, h.refusal?_add_of_isPrefix hout hq hn]
  · simp [hn]
  · simp [hn]

theorem canMake_iff (hallowed : folder.isAllowed = true) :
    t.canMake folder = true ↔ ∀ q, q <+: folder → ∀ content, t.get? q ≠ some (.file content) := by
  rw [canMake_eq_true_iff, and_iff_right (Path.isAllowed_iff.mp hallowed).1]
  refine forall₂_congr fun q hq => h.admits_iff hout hq ?_
  obtain ⟨r, rfl⟩ := hq
  exact Path.isAllowed_of_append hallowed

theorem writeFault?_eq_none_iff (there : Option Node) :
    t.writeFault? (folder ++ [name]) there = none ↔ there ≠ some .folder := by
  have hadd : t.refusal? .add folder = none := by simpa using h.refusal?_append hout .add []
  have hwrite := h.refusal?_append hout .write [name]
  obtain rfl | ⟨_ | content, rfl⟩ := there.eq_none_or_eq_some <;> simp [writeFault?, hadd, hwrite]

theorem openFault?_eq_none_iff : t.openFault? (folder ++ [name]) = none ↔
    (folder ++ [name]).isAllowed = true ∧ t.get? (folder ++ [name]) ≠ some .folder := by
  have hpass : ∀ q, q <+: folder → q ≠ [] → t.refusal? .pass ([] ++ q) = none := by
    intro q hq hne
    simpa [isPassable, hne] using h.isPassable_of_isPrefix hout hq
  have hway : t.passFault? [] folder = none ↔ ∀ name ∈ folder, Path.fits name = true := by
    rw [passFault?_eq_none_iff, and_iff_left hpass]
  rw [openFault?, List.dropLast_concat, List.getLast?_concat, Option.all_some, Path.isAllowed]
  cases (folder ++ [name]).isShort with
  | false => simp
  | true =>
    cases hname : Path.fits name with
    | false => simp [hname]
    | true => simp [hname, hway, h.writeFault?_eq_none_iff hout]

end IsOpen

end Tree

namespace Export

variable {t : Tree} {out folder : Path} {name : Text} {o : Object} {refused : Fault → WriteError}

/-- What has to be the case for a file to be written where nothing is refused. -/
theorem outcomeIn_eq_written_iff (h : t.IsOpen out) (hout : out <+: folder) :
    outcomeIn t folder name refused = .written ↔
      (folder ++ [name]).isAllowed = true ∧
        (∀ q, q <+: folder → ∀ content, t.get? q ≠ some (.file content)) ∧
        t.get? (folder ++ [name]) ≠ some .folder := by
  rw [outcomeIn_eq_written_iff_opens, h.openFault?_eq_none_iff hout]
  constructor
  · rintro ⟨hmake, hallowed, hfolder⟩
    exact ⟨hallowed, (h.canMake_iff hout (Path.isAllowed_of_append hallowed)).mp hmake, hfolder⟩
  · rintro ⟨hallowed, hfile, hfolder⟩
    exact ⟨(h.canMake_iff hout (Path.isAllowed_of_append hallowed)).mpr hfile, hallowed, hfolder⟩

/-- No file stands where a folder of objects is needed, and no folder where a file of one is. -/
structure IsReady (t : Tree) (out : Path) : Prop where
  fits : ∀ name ∈ out, Path.fits name = true
  noFile : ∀ (k : Kind) (q : Path), q <+: out ++ [k.folder] → ∀ content,
    t.get? q ≠ some (.file content)
  noFolder : ∀ (k : Kind) (name : Text), t.get? (out ++ [k.folder, name]) ≠ some .folder
  opens : t.IsOpen out

theorem isReady_of_isFresh (h : t.IsFresh out) : IsReady t out where
  fits := h.fits
  noFile k q hq content := by
    obtain rfl | hq := List.prefix_concat_iff.mp hq
    · simp [h.empty]
    · exact h.noFile q hq content
  noFolder k name := by simp [h.empty]
  opens := h.opens

theorem fits_folder (k : Kind) : Path.fits k.folder = true := by
  cases k <;> decide

/-- An object whose path is allowed is written. -/
theorem IsReady.outcomeOf_eq_written (h : IsReady t out) (hfits : Path.fits o.fileName = true)
    (hshort : Path.isShort (out ++ o.path) = true) : outcomeOf out t o = .written := by
  have hnames : ∀ name ∈ out ++ o.path, Path.fits name = true := by
    simpa [Object.path, or_imp, forall_and, fits_folder, hfits] using h.fits
  refine (outcomeIn_eq_written_iff h.opens (List.prefix_append _ _)).mpr
    ⟨?_, h.noFile o.kind, ?_⟩
  · rw [folder_append_fileName]
    exact Path.isAllowed_iff.mpr ⟨hshort, hnames⟩
  · rw [List.append_assoc]
    exact h.noFolder o.kind o.fileName

/-- All objects are tried, and those with allowed paths are written. -/
theorem exists_write_of_isReady (h : IsReady t out) (os : List Object) (residual : Text) :
    ∃ last summary, write .utf8 out t os residual = (last, .ok summary) ∧
      ∀ o ∈ os, Path.fits o.fileName = true → Path.isShort (out ++ o.path) = true →
        (o, .written) ∈ summary.objects := by
  obtain ⟨last, hwrite⟩ := exists_write_utf8 out t os residual
  refine ⟨last, _, hwrite, fun o ho hfits hshort => ?_⟩
  exact List.mem_map.mpr ⟨o, ho, by rw [h.outcomeOf_eq_written hfits hshort]⟩

end Export
end SchemaDump
