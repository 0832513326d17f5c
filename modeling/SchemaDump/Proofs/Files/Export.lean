import SchemaDump.Files.Export
import SchemaDump.Proofs.Files.Tree
import Mathlib.Data.List.Dedup

/-! What stands in the files in the end. The last object written to a path has its definition there,
so each written object has its own exactly where no two of them share a path. -/
namespace SchemaDump.Export

open SchemaDump.Tree

variable {encoding : Encoding} {codecs : Codecs} {t t' last : Tree} {out folder p q : Path}
  {name s : Text} {o o' : Object} {os : List Object} {outcome : Outcome}
  {outcomes : List (Object × Outcome)} {refused : Fault → WriteError} {ps : List Path}

/-- The file at `p` has `s` as its content. -/
def Holds (encoding : Encoding) (t : Tree) (p : Path) (s : Text) : Prop :=
  ∃ content, encoding.encode s = .ok content ∧ t.get? p = some (.file content)

instance : Decidable (Holds encoding t p s) :=
  decidable_of_iff
    ((encoding.encode s).toOption.any fun content => t.get? p = some (.file content))
    (by cases h : encoding.encode s <;> simp [Holds, h, Except.toOption])

theorem Holds.of_keeps (h : Holds encoding t p s) (hk : Keeps ps t t') (hp : p ∉ ps) :
    Holds encoding t' p s := by
  obtain ⟨content, he, hg⟩ := h
  exact ⟨content, he, hk p _ hp hg⟩

theorem holds_utf8_iff : Holds .utf8 t p s ↔ t.get? p = some (.file (Utf8.encode s)) := by
  constructor
  · rintro ⟨content, hcontent, hfile⟩
    cases hcontent
    exact hfile
  · exact fun hfile => ⟨_, rfl, hfile⟩

/-- The objects that were written, of those with an outcome. -/
def writtenAmong (outcomes : List (Object × Outcome)) : List Object :=
  (outcomes.filter fun e => e.2 = .written).map Prod.fst

@[simp] theorem writtenAmong_nil : writtenAmong [] = [] := rfl

@[simp] theorem writtenAmong_cons_written (o : Object) (outcomes : List (Object × Outcome)) :
    writtenAmong ((o, .written) :: outcomes) = o :: writtenAmong outcomes := rfl

@[simp] theorem writtenAmong_cons_failed (o : Object) (e : WriteError)
    (outcomes : List (Object × Outcome)) :
    writtenAmong ((o, .failed e) :: outcomes) = writtenAmong outcomes := rfl

theorem mem_writtenAmong_iff : o ∈ writtenAmong outcomes ↔ (o, .written) ∈ outcomes := by
  simp [writtenAmong]

/-- The object that was the last to be written to the path, of those with an outcome. -/
def lastAmong? (outcomes : List (Object × Outcome)) (p : Path) : Option Object :=
  (writtenAmong outcomes).reverse.find? fun o => o.path = p

theorem lastAmong?_cons_written (o : Object) (outcomes : List (Object × Outcome)) (p : Path) :
    lastAmong? ((o, .written) :: outcomes) p =
      (lastAmong? outcomes p).or (if o.path = p then some o else none) := by
  by_cases hp : o.path = p <;> simp [lastAmong?, List.find?_append, hp]

namespace Summary

def writtenObjects (s : Summary) : List Object := writtenAmong s.objects

/-- The paths of the files written for objects, each once. -/
def files (s : Summary) : List Path := (s.writtenObjects.map Object.path).dedup

theorem written_eq_length (s : Summary) : s.written = s.writtenObjects.length := by
  simp [written, writtenObjects, writtenAmong, List.countP_eq_length_filter]

theorem written_eq_length_files_iff (s : Summary) :
    s.written = s.files.length ↔ (s.writtenObjects.map Object.path).Nodup := by
  rw [written_eq_length, files, ← List.length_map (f := Object.path), eq_comm]
  constructor
  · intro h
    have hd := (List.dedup_sublist (s.writtenObjects.map Object.path)).eq_of_length h
    exact List.dedup_eq_self.mp hd
  · intro h
    rw [h.dedup]

end Summary

theorem exists_of_map_eq_ok {α β : Type} {f : α → β} {b : β} {w : Tree × Except EncodeFault α}
    (h : (w.1, w.2.map f) = (last, .ok b)) : ∃ a, w = (last, .ok a) ∧ f a = b := by
  obtain ⟨after, result⟩ := w
  cases result with
  | error f => simp [Except.map] at h
  | ok a =>
    simp only [Except.map, Prod.mk.injEq, Except.ok.injEq] at h
    exact ⟨a, by rw [h.1], h.2⟩

/-- A write that succeeds leaves the text in the file, and one that fails leaves all as it is. -/
theorem writeText_eq_ok {result : Except Fault Unit}
    (h : writeText codecs t p s = (t', .ok result)) :
    (result = .ok () ∧ Holds codecs.text t' p s ∧ Keeps [p] t t') ∨
      ((∃ f, result = .error f) ∧ t' = t) := by
  rw [writeText] at h
  split at h
  · simp at h
  · split at h
    · next f _ =>
      cases h
      exact Or.inr ⟨⟨f, rfl⟩, rfl⟩
    · next opened hw =>
      obtain ⟨hp, rfl⟩ := write_eq_ok hw
      split at h
      · simp at h
      · next content hc =>
        cases h
        refine Or.inl ⟨rfl, ⟨content, hc, get?_put_self hp _ _⟩, ?_⟩
        exact ((keeps_put p t (.file [])).trans (keeps_put p _ (.file content))).mono (by simp)

theorem writeInto_eq_ok (h : writeInto codecs t folder name s refused = (t', .ok outcome)) :
    (outcome = .written ∧ Holds codecs.text t' (folder ++ [name]) s ∧
        Keeps [folder ++ [name]] t t') ∨
      ((∃ e, outcome = .failed e) ∧ Keeps [] t t') := by
  rw [writeInto] at h
  have hk := keeps_makeFolders t folder
  split at h
  · next made hm =>
    cases h
    rw [hm] at hk
    exact Or.inr ⟨⟨_, rfl⟩, hk⟩
  · next made hm =>
    rw [hm] at hk
    obtain ⟨result, hw, rfl⟩ := exists_of_map_eq_ok h
    obtain ⟨rfl, hh, hk'⟩ | ⟨⟨f, rfl⟩, rfl⟩ := writeText_eq_ok hw
    · exact Or.inl ⟨rfl, hh, hk.trans hk'⟩
    · exact Or.inr ⟨⟨_, rfl⟩, hk⟩

theorem folder_append_fileName (out : Path) (o : Object) :
    out ++ [o.kind.folder] ++ [o.fileName] = out ++ o.path := by
  simp [Object.path]

/-- One object: its file holds its definition, or all files are as they were. -/
theorem writeObject_eq_ok (h : writeObject codecs out t o = (t', .ok outcome)) :
    (outcome = .written ∧ Holds codecs.text t' (out ++ o.path) o.definition ∧
        Keeps [out ++ o.path] t t') ∨
      ((∃ e, outcome = .failed e) ∧ Keeps [] t t') := by
  rw [← folder_append_fileName]
  exact writeInto_eq_ok h

theorem exists_of_writeObjects_cons
    (h : writeObjects codecs out t (o :: os) = (last, .ok outcomes)) :
    ∃ after outcome rest, writeObject codecs out t o = (after, .ok outcome) ∧
      writeObjects codecs out after os = (last, .ok rest) ∧ outcomes = (o, outcome) :: rest := by
  rw [writeObjects] at h
  split at h
  · simp at h
  · next after outcome ho =>
    obtain ⟨rest, hr, rfl⟩ := exists_of_map_eq_ok h
    exact ⟨after, outcome, rest, ho, hr, rfl⟩

theorem map_fst_of_writeObjects (h : writeObjects codecs out t os = (last, .ok outcomes)) :
    outcomes.map Prod.fst = os := by
  induction os generalizing t outcomes with
  | nil =>
    cases h
    rfl
  | cons o os ih =>
    obtain ⟨after, outcome, rest, -, hr, rfl⟩ := exists_of_writeObjects_cons h
    simp [ih hr]

/-- Many objects: nothing changes but at the paths of those that were written. -/
theorem keeps_writeObjects (h : writeObjects codecs out t os = (last, .ok outcomes)) :
    Keeps ((writtenAmong outcomes).map fun o => out ++ o.path) t last := by
  induction os generalizing t outcomes with
  | nil =>
    cases h
    exact .refl _ _
  | cons o os ih =>
    obtain ⟨after, outcome, rest, ho, hr, rfl⟩ := exists_of_writeObjects_cons h
    obtain ⟨rfl, -, hk⟩ | ⟨⟨e, rfl⟩, hk⟩ := writeObject_eq_ok ho
    · exact hk.trans (ih hr)
    · rw [writtenAmong_cons_failed]
      exact hk.trans (ih hr)

/-- Many objects: of those written to one path, the last is found there. -/
theorem holds_last_of_writeObjects (h : writeObjects codecs out t os = (last, .ok outcomes))
    (hl : lastAmong? outcomes p = some o) : Holds codecs.text last (out ++ p) o.definition := by
  induction os generalizing t outcomes with
  | nil =>
    cases h
    simp [lastAmong?] at hl
  | cons x os ih =>
    obtain ⟨after, outcome, rest, hx, hr, rfl⟩ := exists_of_writeObjects_cons h
    obtain ⟨rfl, hh, -⟩ | ⟨⟨e, rfl⟩, -⟩ := writeObject_eq_ok hx
    · cases hn : lastAmong? rest p with
      | some o' =>
        rw [lastAmong?_cons_written, hn, Option.some_or] at hl
        cases hl
        exact ih hr hn
      | none =>
        -- nothing was written over `x`
        rw [lastAmong?_cons_written, hn, Option.none_or] at hl
        obtain ⟨rfl, rfl⟩ : x.path = p ∧ x = o := by simpa using hl
        have hp : ∀ o' ∈ writtenAmong rest, o'.path ≠ x.path := by
          simpa [lastAmong?] using hn
        refine hh.of_keeps (keeps_writeObjects hr) ?_
        simpa using hp
    · exact ih hr (by simpa [lastAmong?] using hl)

theorem exists_lastAmong? (ho : o ∈ writtenAmong outcomes) :
    ∃ o', lastAmong? outcomes o.path = some o' ∧ o' ∈ writtenAmong outcomes ∧ o'.path = o.path := by
  have hs : (lastAmong? outcomes o.path).isSome := by
    simp only [lastAmong?, List.find?_isSome, List.mem_reverse, decide_eq_true_eq]
    exact ⟨o, ho, rfl⟩
  obtain ⟨o', ho'⟩ := Option.isSome_iff_exists.mp hs
  refine ⟨o', ho', ?_, ?_⟩
  · exact List.mem_reverse.mp (List.mem_of_find?_eq_some ho')
  · simpa using List.find?_some ho'

/-- The residual text stands beside the folders of the objects. -/
theorem keeps_writeResidual {written : Option Outcome}
    (h : writeResidual codecs out t s = (last, .ok written)) :
    Keeps [out ++ [residualName.toList]] t last := by
  rw [writeResidual] at h
  split at h
  · cases h
    exact .refl _ _
  · obtain ⟨outcome, hw, -⟩ := exists_of_map_eq_ok h
    obtain ⟨-, -, hk⟩ | ⟨-, hk⟩ := writeInto_eq_ok hw
    · exact hk
    · exact hk.mono (by simp)

/-- A run writes the objects, and the residual text after them. -/
theorem exists_of_write_eq_ok {residual : Text} {summary : Summary}
    (h : write codecs out t os residual = (last, .ok summary)) :
    ∃ after, writeObjects codecs out t os = (after, .ok summary.objects) ∧
      writeResidual codecs out after residual = (last, .ok summary.residual) := by
  rw [write] at h
  split at h
  · simp at h
  · next after outcomes ho =>
    obtain ⟨written, hw, rfl⟩ := exists_of_map_eq_ok h
    exact ⟨after, ho, hw⟩

theorem exists_of_write {residual : Text} {summary : Summary}
    (h : write codecs out t os residual = (last, .ok summary)) :
    ∃ after, writeObjects codecs out t os = (after, .ok summary.objects) ∧
      Keeps [out ++ [residualName.toList]] after last := by
  obtain ⟨after, ho, hw⟩ := exists_of_write_eq_ok h
  exact ⟨after, ho, keeps_writeResidual hw⟩

theorem path_ne_residual (out : Path) (o : Object) :
    out ++ o.path ≠ out ++ [residualName.toList] := by
  simp [Object.path]

theorem holds_of_writeObjects (h : writeObjects codecs out t os = (last, .ok outcomes))
    (ho : (o, .written) ∈ outcomes) (hunique : ∀ o' ∈ os, o'.path = o.path → o' = o) :
    Holds codecs.text last (out ++ o.path) o.definition := by
  obtain ⟨o', hlast, hamong, hpath⟩ := exists_lastAmong? (mem_writtenAmong_iff.mpr ho)
  have hmem : o' ∈ os := by
    rw [← map_fst_of_writeObjects h]
    exact (List.filter_sublist.map Prod.fst).subset hamong
  obtain rfl := hunique o' hmem hpath
  exact holds_last_of_writeObjects h hlast

/-- An object that is written has its definition in its file if no other has the same path. -/
theorem holds_of_written {residual : Text} {summary : Summary}
    (h : write codecs out t os residual = (last, .ok summary))
    (ho : (o, .written) ∈ summary.objects) (hunique : ∀ o' ∈ os, o'.path = o.path → o' = o) :
    Holds codecs.text last (out ++ o.path) o.definition := by
  obtain ⟨after, hobjects, hkeeps⟩ := exists_of_write h
  refine (holds_of_writeObjects hobjects ho hunique).of_keeps hkeeps ?_
  simpa using path_ne_residual out o

/-- Where objects share a path, the file holds the last of them that was written. So every written
object has its own definition in its file, and there are as many files as written objects, where the
paths of the written objects differ. -/
theorem written_holds_last {summary : Summary}
    (h : write codecs out t (Dump.parse s).objects (Dump.parse s).residual =
      (last, .ok summary)) :
    summary.objects.map Prod.fst = (Dump.parse s).objects ∧
      (∀ o ∈ summary.writtenObjects, ∃ o' ∈ summary.writtenObjects,
        lastAmong? summary.objects o.path = some o' ∧ o'.path = o.path ∧
          Holds codecs.text last (out ++ o.path) o'.definition) ∧
      (summary.written = summary.files.length ↔
        (summary.writtenObjects.map Object.path).Nodup) ∧
      ((summary.writtenObjects.map Object.path).Nodup →
        ∀ o ∈ summary.writtenObjects, Holds codecs.text last (out ++ o.path) o.definition) := by
  obtain ⟨after, ho, hk⟩ := exists_of_write h
  have hlast : ∀ o ∈ summary.writtenObjects, ∃ o' ∈ summary.writtenObjects,
      lastAmong? summary.objects o.path = some o' ∧ o'.path = o.path ∧
        Holds codecs.text last (out ++ o.path) o'.definition := by
    intro o hm
    obtain ⟨o', hl, hm', hp⟩ := exists_lastAmong? hm
    refine ⟨o', hm', hl, hp, (holds_last_of_writeObjects ho hl).of_keeps hk ?_⟩
    simpa using path_ne_residual out o
  refine ⟨map_fst_of_writeObjects ho, hlast, summary.written_eq_length_files_iff, ?_⟩
  intro hd o hm
  obtain ⟨o', hm', -, hp, hh⟩ := hlast o hm
  obtain rfl : o' = o := List.inj_on_of_nodup_map hd hm' hm hp
  exact hh

theorem written_holds_last_overloads :
    let d := Dump.parse ("CREATE TABLE t (a int);\nCREATE FUNCTION f(int) AS 'i';\n" ++
      "CREATE FUNCTION f(text) AS 't';").toList
    ∃ last summary, write .utf8 [['o']] {} d.objects d.residual = (last, .ok summary) ∧
      summary.written = 3 ∧ summary.files.length = 2 ∧
      ∀ o ∈ summary.writtenObjects, ∃ o' ∈ summary.writtenObjects,
        lastAmong? summary.objects o.path = some o' ∧ o'.path = o.path ∧
          Holds .utf8 last ([['o']] ++ o.path) o'.definition := by
  intro d
  have h : (match write .utf8 [['o']] {} d.objects d.residual with
      | (_, .ok summary) => decide (summary.written = 3 ∧ summary.files.length = 2)
      | _ => false) = true := by decide +kernel
  split at h
  · next last summary hw =>
    obtain ⟨h₃, h₂⟩ := of_decide_eq_true h
    exact ⟨last, summary, hw, h₃, h₂, (written_holds_last hw).2.1⟩
  · cases h

/-- Functions that differ in their arguments alone are counted as two and leave one file. -/
theorem overloads_leave_one_file :
    let d := Dump.parse
      "CREATE FUNCTION f(int) AS 'i';\nCREATE FUNCTION f(text) AS 't';".toList
    ∃ last summary, write .utf8 [['o']] {} d.objects d.residual = (last, .ok summary) ∧
      summary.written = 2 ∧ summary.files.length = 1 ∧
      ∃ o ∈ summary.writtenObjects, ¬ Holds .utf8 last ([['o']] ++ o.path) o.definition := by
  intro d
  have h : (match write .utf8 [['o']] {} d.objects d.residual with
      | (last, .ok summary) => decide (summary.written = 2 ∧ summary.files.length = 1 ∧
          ∃ o ∈ summary.writtenObjects, ¬ Holds .utf8 last ([['o']] ++ o.path) o.definition)
      | _ => false) = true := by decide +kernel
  split at h
  · next last summary hw => exact ⟨last, summary, hw, of_decide_eq_true h⟩
  · cases h

end SchemaDump.Export
