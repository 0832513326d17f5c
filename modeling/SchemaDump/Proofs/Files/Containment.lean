import SchemaDump.Proofs.Files.Export
import SchemaDump.Proofs.Lists

/-! Where files are written. Whatever the names of the objects are, writing makes the output folder
and folders of kinds in it, puts files there, and changes nothing else. -/
namespace SchemaDump

namespace Path

variable {base p : Path} {name : Text}

/-- A text that is one step of a path. -/
def IsName (name : Text) : Prop :=
  name ∉ [[], ['.'], ['.', '.']] ∧ '/' ∉ name ∧ '\x00' ∉ name

instance : Decidable (IsName name) := inferInstanceAs (Decidable (_ ∧ _))

theorem IsName.step (h : IsName name) (base : Path) : step base name = base ++ [name] := by
  have hname : name ≠ [] ∧ name ≠ ['.'] ∧ name ≠ ['.', '.'] := by simpa using h.1
  simp [Path.step, hname]

theorem foldl_step (h : ∀ name ∈ p, IsName name) (base : Path) :
    p.foldl step base = base ++ p := by
  induction p generalizing base with
  | nil => simp
  | cons name p ih =>
    obtain ⟨hname, hp⟩ := List.forall_mem_cons.mp h
    rw [List.foldl_cons, hname.step, ih hp]
    simp

/-- Names with slashes between them lead to the path of these names. -/
theorem resolve?_intercalate (hp : p ≠ []) (h : ∀ name ∈ p, IsName name) (base : Path) :
    resolve? base (['/'].intercalate p) = some (base ++ p) := by
  have hnul : '\x00' ∉ ['/'].intercalate p :=
    Lists.not_mem_intercalate (by decide) fun name hm => (h name hm).2.2
  have hsplit : (['/'].intercalate p).splitOn '/' = p :=
    List.splitOn_intercalate '/' (fun name hm => (h name hm).2.1) hp
  have hhead : (['/'].intercalate p).head? ≠ some '/' := by
    obtain ⟨name, q, rfl⟩ := List.exists_cons_of_ne_nil hp
    obtain ⟨⟨hne, hslash, -⟩, -⟩ := List.forall_mem_cons.mp h
    obtain ⟨c, s, rfl⟩ := List.exists_cons_of_ne_nil fun hnil : name = [] => hne (by simp [hnil])
    have hc : c ≠ '/' := fun hc => hslash (by simp [hc])
    cases q with
    | nil => simpa using hc
    | cons d q => simpa using hc
  rw [resolve?, if_neg hnul, if_neg hhead, hsplit, foldl_step h]

end Path

namespace Object

theorem isName_folder (k : Kind) : Path.IsName k.folder := by
  cases k <;> decide

theorem nameChar_ne (c : Char) : nameChar c ≠ '/' ∧ nameChar c ≠ '\\' ∧ nameChar c ≠ '\x00' := by
  rw [nameChar]
  split
  · decide
  · next h => simpa [not_or] using h

theorem suffix_fileName (o : Object) : ".sql".toList <:+ o.fileName := List.suffix_append _ _

/-- A file name has none of the characters that separate or end a path. -/
theorem not_mem_fileName (o : Object) :
    '/' ∉ o.fileName ∧ '\\' ∉ o.fileName ∧ '\x00' ∉ o.fileName := by
  have hstem {c : Char} (hc : ∀ d, nameChar d ≠ c) : c ∉ o.stem.map nameChar := by
    rw [List.mem_map]
    rintro ⟨d, -, hd⟩
    exact hc d hd
  have hsql {c : Char} (hc : ∀ d, nameChar d ≠ c) (hend : c ∉ ".sql".toList) :
      c ∉ o.fileName := by
    rw [fileName, List.mem_append, not_or]
    exact ⟨hstem hc, hend⟩
  exact ⟨hsql (fun d => (nameChar_ne d).1) (by decide),
    hsql (fun d => (nameChar_ne d).2.1) (by decide),
    hsql (fun d => (nameChar_ne d).2.2) (by decide)⟩

theorem isName_fileName (o : Object) : Path.IsName o.fileName := by
  obtain ⟨hslash, -, hnul⟩ := o.not_mem_fileName
  refine ⟨fun hm => ?_, hslash, hnul⟩
  have hlength := o.suffix_fileName.length_le
  simp only [List.mem_cons, List.not_mem_nil, or_false] at hm
  obtain hm | hm | hm := hm <;> simp [hm] at hlength

theorem isName_of_mem_path (o : Object) : ∀ name ∈ o.path, Path.IsName name := by
  simpa [path] using ⟨isName_folder o.kind, o.isName_fileName⟩

end Object

namespace Tree

variable {folders folders' files files' : Path → Prop} {t t' u : Tree} {p q base names : Path}
  {content : Bytes}

/-- What may become of a path: all stays as it is, a folder is made where nothing stood, if its name
fits and the folder that it is in takes it, or a file is put where nothing keeps it from being
written. -/
inductive Change (folders files : Path → Prop) (t t' : Tree) (q : Path) : Prop where
  | kept (h : t'.get? q = t.get? q)
  | made (hq : folders q) (hfits : q.getLast?.all Path.fits = true)
      (hadd : t.refusal? .add q.dropLast = none) (h : t.get? q = none)
      (h' : t'.get? q = some .folder)
  | put (hq : files q) (h : t.writeFault? q (t.get? q) = none) (content : Bytes)
      (h' : t'.get? q = some (.file content))

/-- Folders are made only at some of the paths `folders`, files are put only at some of the paths
`files`, and nothing else changes. -/
structure Confined (folders files : Path → Prop) (t t' : Tree) : Prop where
  change : ∀ q, Change folders files t t' q
  refusals : t'.refusals = t.refusals

theorem Confined.refl (folders files : Path → Prop) (t : Tree) : Confined folders files t t :=
  ⟨fun _ => .kept rfl, rfl⟩

@[simp] theorem writeFault?_folder (t : Tree) (p : Path) :
    t.writeFault? p (some .folder) = some .isFolder := rfl

@[simp] theorem writeFault?_file (t : Tree) (p : Path) (content : Bytes) :
    t.writeFault? p (some (.file content)) = t.refusal? .write p := rfl

theorem refusal?_congr (hr : t'.refusals = t.refusals) : t'.refusal? = t.refusal? := by
  funext a p
  rw [refusal?, refusal?, hr]

theorem writeFault?_congr (hr : t'.refusals = t.refusals) : t'.writeFault? = t.writeFault? := by
  funext p there
  simp only [writeFault?, refusal?_congr hr]

/-- Where a file can be made or written over, it can be written over. -/
theorem refusal?_of_writeFault? {there : Option Node} (h : t.writeFault? p there = none) :
    t.refusal? .write p = none := by
  obtain rfl | ⟨_ | content, rfl⟩ := there.eq_none_or_eq_some
  · exact (Option.or_eq_none_iff.mp h).2
  · cases h
  · exact h

theorem get?_ne_folder (h : t.writeFault? p (t.get? p) = none) : t.get? p ≠ some .folder := by
  intro hp
  rw [hp] at h
  cases h

/-- A folder that is made stays a folder, and a file that is put stays a file. -/
theorem Change.trans (hr : t'.refusals = t.refusals) (h : Change folders files t t' q)
    (h' : Change folders files t' u q) : Change folders files t u q := by
  cases h with
  | kept h =>
    cases h' with
    | kept h' => exact .kept (h'.trans h)
    | made hq hfits hadd hn hf =>
      exact .made hq hfits (refusal?_congr hr ▸ hadd) (h ▸ hn) hf
    | put hq hn content hf =>
      rw [writeFault?_congr hr, h] at hn
      exact .put hq hn content hf
  | made hq hfits hadd hn hf =>
    cases h' with
    | kept h' => exact .made hq hfits hadd hn (h'.trans hf)
    | made _ _ _ hn' _ => simp [hf] at hn'
    | put _ hn' _ _ => exact (get?_ne_folder hn' hf).elim
  | put hq hn content hf =>
    cases h' with
    | kept h' => exact .put hq hn content (h'.trans hf)
    | made _ _ _ hn' _ => simp [hf] at hn'
    | put _ _ content' hf' => exact .put hq hn content' hf'

theorem Confined.trans (h : Confined folders files t t') (h' : Confined folders files t' u) :
    Confined folders files t u :=
  ⟨fun q => (h.change q).trans h.refusals (h'.change q), h'.refusals.trans h.refusals⟩

theorem Confined.mono (h : Confined folders files t t') (hfolders : ∀ q, folders q → folders' q)
    (hfiles : ∀ q, files q → files' q) : Confined folders' files' t t' := by
  refine ⟨fun q => ?_, h.refusals⟩
  cases h.change q with
  | kept h => exact .kept h
  | made hq hfits hadd hn hf => exact .made (hfolders q hq) hfits hadd hn hf
  | put hq hn content hf => exact .put (hfiles q hq) hn content hf

/-- What is neither of the folders nor of the files stays as it is. -/
theorem Confined.get?_eq (h : Confined folders files t t') (hfolder : ¬ folders q)
    (hfile : ¬ files q) : t'.get? q = t.get? q := by
  cases h.change q with
  | kept h => exact h
  | made hq _ _ _ _ => exact (hfolder hq).elim
  | put hq _ _ _ => exact (hfile hq).elim

/-- Nothing is removed, and nothing turns from a file into a folder or back. -/
theorem Confined.exists_node {n : Node} (h : Confined folders files t t')
    (hn : t.get? q = some n) : ∃ n', t'.get? q = some n' ∧ (n' = .folder ↔ n = .folder) := by
  cases h.change q with
  | kept h => exact ⟨n, h.trans hn, Iff.rfl⟩
  | made _ _ _ h _ => simp [hn] at h
  | put _ h content h' =>
    have hne := get?_ne_folder h
    rw [hn, ne_eq, Option.some.injEq] at hne
    exact ⟨.file content, h', by simp [hne]⟩

theorem confined_put_folder (hfits : p.getLast?.all Path.fits = true)
    (hadd : t.refusal? .add p.dropLast = none) (h : t.get? p = none) :
    Confined (· = p) files t (t.put p .folder) := by
  refine ⟨fun q => ?_, rfl⟩
  by_cases hq : q = p
  · subst hq
    have hne : q ≠ [] := by
      rintro rfl
      simp [get?] at h
    exact .made rfl hfits hadd h (get?_put_self hne t _)
  · exact .kept (get?_put_of_ne hq t _)

theorem confined_put_file (hp : p ≠ []) (h : t.writeFault? p (t.get? p) = none)
    (content : Bytes) : Confined folders (· = p) t (t.put p (.file content)) := by
  refine ⟨fun q => ?_, rfl⟩
  by_cases hq : q = p
  · subst hq
    exact .put rfl h content (get?_put_self hp t _)
  · exact .kept (get?_put_of_ne hq t _)

/-- Folders are made on the way only. -/
theorem confined_makeBelow (t : Tree) (base names : Path) :
    Confined (· <+: base ++ names) files t (t.makeBelow base names).1 := by
  induction names generalizing t base with
  | nil => exact .refl _ _ _
  | cons name names ih =>
    have hcons : base ++ [name] ++ names = base ++ name :: names := by simp
    rw [makeBelow]
    split
    · exact .refl _ _ _
    · split
      · exact hcons ▸ ih t _
      · exact .refl _ _ _
      · next hn =>
        split
        · next hmay =>
          obtain ⟨hfits, hadd⟩ := Bool.and_eq_true_iff.mp hmay
          have hput : Confined (· = base ++ [name]) files t (t.put (base ++ [name]) .folder) :=
            confined_put_folder (by simpa using hfits) (by simpa using hadd) hn
          refine .trans (hput.mono ?_ fun _ h => h) (hcons ▸ ih _ _)
          rintro q rfl
          exact hcons ▸ List.prefix_append _ _
        · exact .refl _ _ _

theorem confined_makeFolders (t : Tree) (p : Path) :
    Confined (· <+: p) files t (t.makeFolders p).1 := by
  rw [makeFolders]
  split
  · exact confined_makeBelow t [] p
  · exact .refl _ _ _

theorem get?_of_find {node : Option Node} (h : t.find p = .ok node) : node = t.get? p := by
  rw [find] at h
  split at h
  · cases h
  · split at h
    · cases h
    · split at h <;> cases h
      rfl

/-- What keeps a file from being written would keep this one. -/
theorem writeFault?_of_write (h : t.write p content = .ok t') :
    t.writeFault? p (t.get? p) = none := by
  rw [write] at h
  split at h
  · cases h
  · next there hfind =>
    rw [← get?_of_find hfind]
    split at h
    · cases h
    · assumption

theorem confined_write (h : t.write p content = .ok t') : Confined folders (· = p) t t' := by
  obtain ⟨hp, rfl⟩ := write_eq_ok h
  exact confined_put_file hp (writeFault?_of_write h) content

end Tree

namespace Export

open SchemaDump.Tree

variable {folders files : Path → Prop}

/-- A text that cannot be encoded has emptied the file, one that can be fills it. A path that cannot
be encoded is left alone. -/
theorem confined_writeText (codecs : Codecs) (t : Tree) (p : Path) (s : Text) :
    Confined folders (· = p) t (writeText codecs t p s).1 := by
  rw [writeText]
  split
  · exact .refl _ _ _
  · split
    · exact .refl _ _ _
    · next opened hw =>
      have hopened : Confined folders (· = p) t opened := confined_write hw
      split
      · exact hopened
      · next content _ =>
        obtain ⟨hp, rfl⟩ := write_eq_ok hw
        refine hopened.trans (confined_put_file hp ?_ content)
        simpa [get?_put_self hp] using refusal?_of_writeFault? (writeFault?_of_write hw)

theorem confined_writeInto (codecs : Codecs) (t : Tree) (folder : Path) (name s : Text)
    (refused : Fault → WriteError) :
    Confined (· <+: folder) (· = folder ++ [name]) t
      (writeInto codecs t folder name s refused).1 := by
  have hfolders : Confined (· <+: folder) (· = folder ++ [name]) t (t.makeFolders folder).1 :=
    confined_makeFolders t folder
  rw [writeInto]
  split
  · next made hm => rwa [hm] at hfolders
  · next made hm =>
    rw [hm] at hfolders
    exact hfolders.trans (confined_writeText codecs made _ s)

/-- The folders that are made for objects: the output folder, those on the way to it, and one for
each kind. -/
def IsFolderOf (out : Path) (os : List Object) (q : Path) : Prop :=
  q <+: out ∨ ∃ o ∈ os, q = out ++ [o.kind.folder]

/-- The files that are written: those of the objects, and one for the residual text if there is
any. -/
def IsFileOf (out : Path) (os : List Object) (residual : Text) (q : Path) : Prop :=
  (∃ o ∈ os, q = out ++ o.path) ∨ (residual ≠ [] ∧ q = out ++ [residualName.toList])

variable {out q : Path} {os os' : List Object} {o : Object} {residual : Text}

theorem isFolderOf_of_isPrefix (ho : o ∈ os) (hq : q <+: out ++ [o.kind.folder]) :
    IsFolderOf out os q := by
  obtain rfl | hq := List.prefix_concat_iff.mp hq
  · exact Or.inr ⟨o, ho, rfl⟩
  · exact Or.inl hq

theorem IsFolderOf.mono (h : IsFolderOf out os q) (hos : os ⊆ os') : IsFolderOf out os' q :=
  h.imp_right fun ⟨o, ho, hq⟩ => ⟨o, hos ho, hq⟩

theorem IsFileOf.mono (h : IsFileOf out os residual q) (hos : os ⊆ os') :
    IsFileOf out os' residual q :=
  h.imp_left fun ⟨o, ho, hq⟩ => ⟨o, hos ho, hq⟩

theorem confined_writeObject (codecs : Codecs) (out : Path) (t : Tree) (o : Object) :
    Confined (· <+: out ++ [o.kind.folder]) (· = out ++ o.path) t
      (writeObject codecs out t o).1 := by
  rw [writeObject, ← folder_append_fileName]
  exact confined_writeInto codecs t _ _ _ _

theorem confined_writeObject_singleton (codecs : Codecs) (out : Path) (t : Tree) (o : Object) :
    Confined (IsFolderOf out [o]) (IsFileOf out [o] []) t (writeObject codecs out t o).1 :=
  (confined_writeObject codecs out t o).mono
    (fun _ hq => isFolderOf_of_isPrefix List.mem_cons_self hq)
    fun _ hq => Or.inl ⟨o, List.mem_cons_self, hq⟩

/-- Many objects: what one of them changes lies in the output folder, and so does it all. -/
theorem confined_writeObjects (codecs : Codecs) (out : Path) (t : Tree) (os : List Object) :
    Confined (IsFolderOf out os) (IsFileOf out os []) t (writeObjects codecs out t os).1 := by
  induction os generalizing t with
  | nil => exact .refl _ _ _
  | cons o os ih =>
    have hfirst : Confined (IsFolderOf out (o :: os)) (IsFileOf out (o :: os) []) t
        (writeObject codecs out t o).1 :=
      (confined_writeObject_singleton codecs out t o).mono (fun _ hq => hq.mono (by simp))
        fun _ hq => hq.mono (by simp)
    have hrest (after : Tree) : Confined (IsFolderOf out (o :: os)) (IsFileOf out (o :: os) [])
        after (writeObjects codecs out after os).1 :=
      (ih after).mono (fun _ hq => hq.mono (List.subset_cons_self o os))
        fun _ hq => hq.mono (List.subset_cons_self o os)
    rw [writeObjects]
    split
    · next after _ ho => rwa [ho] at hfirst
    · next after _ ho =>
      rw [ho] at hfirst
      exact hfirst.trans (hrest after)

theorem confined_writeResidual (codecs : Codecs) (out : Path) (t : Tree) (os : List Object)
    (residual : Text) :
    Confined (IsFolderOf out os) (IsFileOf out os residual) t
      (writeResidual codecs out t residual).1 := by
  rw [writeResidual]
  split
  · exact .refl _ _ _
  · next hne =>
    refine (confined_writeInto codecs t out _ _ _).mono ?_ ?_
    · exact fun q hq => Or.inl hq
    · rintro q rfl
      exact Or.inr ⟨by simpa using hne, rfl⟩

theorem confined_write (codecs : Codecs) (out : Path) (t : Tree) (os : List Object)
    (residual : Text) :
    Confined (IsFolderOf out os) (IsFileOf out os residual) t
      (write codecs out t os residual).1 := by
  have hobjects : Confined (IsFolderOf out os) (IsFileOf out os residual) t
      (writeObjects codecs out t os).1 := by
    refine (confined_writeObjects codecs out t os).mono (fun _ hq => hq) ?_
    rintro q (hq | ⟨hne, -⟩)
    · exact Or.inl hq
    · exact (hne rfl).elim
  rw [write]
  split
  · next after _ ho => rwa [ho] at hobjects
  · next after _ ho =>
    rw [ho] at hobjects
    exact hobjects.trans (confined_writeResidual codecs out after os residual)

/-- Outside the output folder only the folders on the way to it are made. -/
theorem write_outside (codecs : Codecs) (out : Path) (t : Tree) (os : List Object)
    (residual : Text) (q : Path) :
    (write codecs out t os residual).1.get? q = t.get? q ∨ out <+: q ∨
      (q <+: out ∧ t.get? q = none ∧
        (write codecs out t os residual).1.get? q = some .folder) := by
  cases (confined_write codecs out t os residual).change q with
  | kept h => exact Or.inl h
  | made hq _ _ h h' =>
    obtain hq | ⟨o, -, rfl⟩ := hq
    · exact Or.inr (Or.inr ⟨hq, h, h'⟩)
    · exact Or.inr (Or.inl (List.prefix_append out _))
  | put hq _ _ _ =>
    obtain ⟨o, -, rfl⟩ | ⟨-, rfl⟩ := hq
    · exact Or.inr (Or.inl (List.prefix_append out _))
    · exact Or.inr (Or.inl (List.prefix_append out _))

/-- The file of an object has a name of its own in the folder of its kind, whatever the object is
called. Writing removes nothing, makes folders only on the way to these files, puts files only there
and at the place of the residual text, and changes nothing else, whether all of it succeeds or
not. -/
theorem write_stays_inside (codecs : Codecs) (out : Path) (t : Tree) (os : List Object)
    (residual : Text) :
    (∀ o : Object, o.path = [o.kind.name.toList ++ ['s'], o.fileName] ∧
        ".sql".toList <:+ o.fileName ∧
        '/' ∉ o.fileName ∧ '\\' ∉ o.fileName ∧ '\x00' ∉ o.fileName ∧
        ∀ base, Path.resolve? base (['/'].intercalate o.path) = some (base ++ o.path)) ∧
      (∀ q n, t.get? q = some n → ∃ n',
        (write codecs out t os residual).1.get? q = some n' ∧ (n' = .folder ↔ n = .folder)) ∧
      Confined (IsFolderOf out os) (IsFileOf out os residual) t
        (write codecs out t os residual).1 := by
  have hconfined := confined_write codecs out t os residual
  refine ⟨fun o => ?_, fun q n hn => hconfined.exists_node hn, hconfined⟩
  obtain ⟨hslash, hbackslash, hnul⟩ := o.not_mem_fileName
  refine ⟨rfl, o.suffix_fileName, hslash, hbackslash, hnul, fun base => ?_⟩
  exact Path.resolve?_intercalate (by simp [Object.path]) o.isName_of_mem_path base

end Export
end SchemaDump
