import SchemaDump.Proofs.Files.Access

/-! What comes of each object when many are written. The tree before the run tells it: the folders
and files made for one object neither help nor block another. -/
namespace SchemaDump

open SchemaDump.Tree

namespace Export

variable {codecs : Codecs} {t t' last : Tree} {out folder : Path} {name s residual : Text}
  {o : Object} {os : List Object} {refused : Fault → WriteError} {f : EncodeFault}

/-- What comes of a text for the file `name` in the folder, if nothing ends the run there. -/
def outcomeIn (t : Tree) (folder : Path) (name : Text) (refused : Fault → WriteError) : Outcome :=
  if t.canMake folder then
    match t.openFault? (folder ++ [name]) with
    | none => .written
    | some f => .failed (refused f)
  else .failed (.folder folder)

def outcomeOf (out : Path) (t : Tree) (o : Object) : Outcome :=
  outcomeIn t (out ++ [o.kind.folder]) o.fileName fun _ => .object o.kind o.fileName

def residualOutcome (out : Path) (t : Tree) : Outcome :=
  outcomeIn t out residualName.toList (.residual (out ++ [residualName.toList]))

/-- The file system has a form for the path. -/
def Codecs.CoversPath (codecs : Codecs) (p : Path) : Prop :=
  ∃ name, codecs.path.encode p.render = .ok name

def Codecs.CoversText (codecs : Codecs) (s : Text) : Prop :=
  ∃ content, codecs.text.encode s = .ok content

/-- A run ends with the fault `f` at the text for the file `name` in the folder: the folder can be
made, and the file system has no form for the path, or the file can be opened and the encoding does
not cover the text. -/
def Stops (codecs : Codecs) (t : Tree) (folder : Path) (name s : Text) (f : EncodeFault) : Prop :=
  t.canMake folder = true ∧
    (codecs.path.encode (folder ++ [name]).render = .error f ∨
      codecs.CoversPath (folder ++ [name]) ∧ t.openFault? (folder ++ [name]) = none ∧
        codecs.text.encode s = .error f)

def StopsAt (codecs : Codecs) (out : Path) (t : Tree) (o : Object) : EncodeFault → Prop :=
  Stops codecs t (out ++ [o.kind.folder]) o.fileName o.definition

def StopsAtResidual (codecs : Codecs) (out : Path) (t : Tree) (residual : Text) :
    EncodeFault → Prop :=
  Stops codecs t out residualName.toList residual

theorem outcomeIn_eq_written_iff_opens : outcomeIn t folder name refused = .written ↔
    t.canMake folder = true ∧ t.openFault? (folder ++ [name]) = none := by
  rw [outcomeIn]
  cases t.canMake folder <;> cases t.openFault? (folder ++ [name]) <;> simp

/-- What comes of a text, or ends the run: the folder, the path, opening the file and the text are
tried in this order. -/
theorem writeInto_snd (codecs : Codecs) (t : Tree) (folder : Path) (name s : Text)
    (refused : Fault → WriteError) :
    (writeInto codecs t folder name s refused).2 =
      if t.canMake folder then
        match codecs.path.encode (folder ++ [name]).render with
        | .error f => .error f
        | .ok _ =>
          match t.openFault? (folder ++ [name]) with
          | some f => .ok (.failed (refused f))
          | none => (codecs.text.encode s).map fun _ => .written
      else .ok (.failed (.folder folder)) := by
  have hmade := makeFolders_snd t folder
  have hfolders : Confined (· <+: folder) (fun _ => False) t (t.makeFolders folder).1 :=
    confined_makeFolders t folder
  have hfault : (t.makeFolders folder).1.openFault? (folder ++ [name]) =
      t.openFault? (folder ++ [name]) :=
    hfolders.openFault?_eq (Lists.not_isPrefix_concat folder name)
  rw [writeInto]
  split
  · next made hm =>
    rw [hm] at hmade
    rw [← hmade]
    rfl
  · next made hm =>
    rw [hm] at hmade hfault
    have hstanding : ∀ q, q <+: folder → made.get? q = some .folder := by
      intro q hq
      have := get?_makeFolders hmade.symm hq
      rwa [hm] at this
    rw [← hmade, if_pos rfl, ← hfault]
    dsimp only at hfault ⊢
    rw [writeText, write_eq hstanding]
    cases codecs.path.encode (folder ++ [name]).render with
    | error f => rfl
    | ok _ =>
      cases made.openFault? (folder ++ [name]) with
      | some f => rfl
      | none => cases codecs.text.encode s <;> rfl

theorem writeInto_snd_of_stops (h : Stops codecs t folder name s f) :
    (writeInto codecs t folder name s refused).2 = .error f := by
  obtain ⟨hmake, hpath | ⟨⟨b, hpath⟩, hopen, htext⟩⟩ := h
  · simp only [writeInto_snd, hmake, hpath, if_true]
  · simp only [writeInto_snd, hmake, hpath, hopen, htext, if_true]
    rfl

theorem writeInto_snd_of_not_stops (h : ∀ f, ¬ Stops codecs t folder name s f) :
    (writeInto codecs t folder name s refused).2 = .ok (outcomeIn t folder name refused) := by
  rw [writeInto_snd, outcomeIn]
  split
  · next hmake =>
    cases hpath : codecs.path.encode (folder ++ [name]).render with
    | error f => exact (h f ⟨hmake, Or.inl hpath⟩).elim
    | ok b =>
      cases hopen : t.openFault? (folder ++ [name]) with
      | some f => rfl
      | none =>
        cases htext : codecs.text.encode s with
        | error f => exact (h f ⟨hmake, Or.inr ⟨⟨b, hpath⟩, hopen, htext⟩⟩).elim
        | ok content => rfl
  · rfl

/-- What is covered ends no run. -/
theorem not_stops (hpath : codecs.CoversPath (folder ++ [name])) (htext : codecs.CoversText s)
    (f : EncodeFault) : ¬ Stops codecs t folder name s f := by
  obtain ⟨b, hpath⟩ := hpath
  obtain ⟨content, htext⟩ := htext
  rintro ⟨-, herror | ⟨-, -, herror⟩⟩
  · rw [hpath] at herror
    cases herror
  · rw [htext] at herror
    cases herror

theorem object_path_not_isPrefix (out : Path) (o : Object) (k : Kind) :
    ¬ out ++ o.path <+: out ++ [k.folder] := by
  intro h
  have := h.length_le
  simp [Object.path] at this

/-- The file of an object is no folder that is made for others. -/
theorem not_isFolderOf_path (out : Path) (os : List Object) (o : Object) :
    ¬ IsFolderOf out os (out ++ o.path) := by
  rintro (hq | ⟨o', -, ho'⟩)
  · exact object_path_not_isPrefix out o o.kind (hq.trans (List.prefix_append _ _))
  · exact object_path_not_isPrefix out o o'.kind (ho' ▸ List.prefix_refl _)

/-- No kind has its folder where the residual text is written. -/
theorem not_isFolderOf_residual (out : Path) (os : List Object) :
    ¬ IsFolderOf out os (out ++ [residualName.toList]) := by
  rintro (hq | ⟨o, -, ho⟩)
  · exact Lists.not_isPrefix_concat out _ hq
  · have hname : residualName.toList = o.kind.folder := by simpa using ho
    revert hname
    cases o.kind <;> decide

section

variable (h : Confined (IsFolderOf out os) (IsFileOf out os []) t t')

include h

/-- What is done for objects neither helps nor blocks another. -/
theorem canMake_folder_of_confined (k : Kind) :
    t'.canMake (out ++ [k.folder]) = t.canMake (out ++ [k.folder]) := by
  refine h.canMake_eq ?_
  rintro q (⟨o, -, rfl⟩ | ⟨hne, -⟩)
  · exact object_path_not_isPrefix out o k
  · exact (hne rfl).elim

theorem openFault?_file_of_confined (o : Object) :
    t'.openFault? (out ++ [o.kind.folder] ++ [o.fileName]) =
      t.openFault? (out ++ [o.kind.folder] ++ [o.fileName]) := by
  rw [folder_append_fileName]
  exact h.openFault?_eq (not_isFolderOf_path out os o)

theorem outcomeOf_of_confined (o : Object) : outcomeOf out t' o = outcomeOf out t o := by
  rw [outcomeOf, outcomeOf, outcomeIn, outcomeIn, canMake_folder_of_confined h,
    openFault?_file_of_confined h]

theorem stopsAt_of_confined (o : Object) : StopsAt codecs out t' o = StopsAt codecs out t o := by
  funext f
  rw [StopsAt, StopsAt, Stops, Stops, canMake_folder_of_confined h, openFault?_file_of_confined h]

theorem canMake_out_of_confined : t'.canMake out = t.canMake out := by
  refine h.canMake_eq ?_
  rintro q (⟨o, -, rfl⟩ | ⟨hne, -⟩) hq
  · exact object_path_not_isPrefix out o .table (hq.trans (List.prefix_append _ _))
  · exact hne rfl

/-- Nor does it help or block the residual text. -/
theorem residualOutcome_of_confined : residualOutcome out t' = residualOutcome out t := by
  rw [residualOutcome, residualOutcome, outcomeIn, outcomeIn, canMake_out_of_confined h,
    h.openFault?_eq (not_isFolderOf_residual out os)]

theorem stopsAtResidual_of_confined :
    StopsAtResidual codecs out t' residual = StopsAtResidual codecs out t residual := by
  funext f
  rw [StopsAtResidual, StopsAtResidual, Stops, Stops, canMake_out_of_confined h,
    h.openFault?_eq (not_isFolderOf_residual out os)]

end

/-- Many objects: each fares as it would in the tree before the run. -/
theorem writeObjects_snd (h : ∀ o ∈ os, ∀ f, ¬ StopsAt codecs out t o f) :
    (writeObjects codecs out t os).2 = .ok (os.map fun o => (o, outcomeOf out t o)) := by
  induction os generalizing t with
  | nil => rfl
  | cons o os ih =>
    obtain ⟨ho, hos⟩ := List.forall_mem_cons.mp h
    have hfirst : (writeObject codecs out t o).2 = .ok (outcomeOf out t o) :=
      writeInto_snd_of_not_stops ho
    have hconfined : Confined (IsFolderOf out [o]) (IsFileOf out [o] []) t
        (writeObject codecs out t o).1 := confined_writeObject_singleton codecs out t o
    rw [writeObjects]
    split
    · next hw => simp [hw] at hfirst
    · next after outcome hw =>
      rw [hw] at hfirst hconfined
      obtain rfl : outcome = outcomeOf out t o := by simpa using hfirst
      have hkept (o' : Object) : outcomeOf out after o' = outcomeOf out t o' :=
        outcomeOf_of_confined hconfined o'
      have hrest := ih (t := after) fun o' ho' f => by
        rw [stopsAt_of_confined hconfined]
        exact hos o' ho' f
      simp [hrest, hkept, Except.map]

/-- What a run tells is known before it. -/
theorem write_snd_of_not_stops (h : ∀ o ∈ os, ∀ f, ¬ StopsAt codecs out t o f)
    (hresidual : residual ≠ [] → ∀ f, ¬ StopsAtResidual codecs out t residual f) :
    (write codecs out t os residual).2 = .ok
      { objects := os.map fun o => (o, outcomeOf out t o)
        residual := if residual = [] then none else some (residualOutcome out t) } := by
  have hobjects := writeObjects_snd h
  have hconfined := confined_writeObjects codecs out t os
  rw [write]
  split
  · next hw => simp [hw] at hobjects
  · next after outcomes hw =>
    rw [hw] at hobjects hconfined
    obtain rfl : outcomes = os.map fun o => (o, outcomeOf out t o) := by simpa using hobjects
    rw [writeResidual]
    cases residual with
    | nil => rfl
    | cons c s =>
      have hstops := hresidual (List.cons_ne_nil c s)
      rw [← stopsAtResidual_of_confined hconfined] at hstops
      have hlast (refused : Fault → WriteError) :
          (writeInto codecs after out residualName.toList (c :: s) refused).2 =
            .ok (outcomeIn after out residualName.toList refused) :=
        writeInto_snd_of_not_stops hstops
      have hkept := residualOutcome_of_confined hconfined
      rw [residualOutcome] at hkept
      simp [hlast, hkept, Except.map]

/-- What is covered is tried, all of it. -/
theorem write_snd (hos : ∀ o ∈ os, codecs.CoversText o.definition)
    (hresidual : residual ≠ [] → codecs.CoversText residual)
    (hpaths : ∀ p, IsFileOf out os residual p → codecs.CoversPath p) (t : Tree) :
    (write codecs out t os residual).2 = .ok
      { objects := os.map fun o => (o, outcomeOf out t o)
        residual := if residual = [] then none else some (residualOutcome out t) } := by
  refine write_snd_of_not_stops (fun o ho => ?_) fun hne => ?_
  · refine not_stops ?_ (hos o ho)
    rw [folder_append_fileName]
    exact hpaths _ (Or.inl ⟨o, ho, rfl⟩)
  · exact not_stops (hpaths _ (Or.inr ⟨hne, rfl⟩)) (hresidual hne)

/-- UTF-8 covers all texts, and all paths. -/
theorem exists_write_utf8 (out : Path) (t : Tree) (os : List Object) (residual : Text) :
    ∃ last, write .utf8 out t os residual = (last, .ok
      { objects := os.map fun o => (o, outcomeOf out t o)
        residual := if residual = [] then none else some (residualOutcome out t) }) :=
  ⟨_, Prod.ext rfl (write_snd (fun _ _ => ⟨_, rfl⟩) (fun _ => ⟨_, rfl⟩) (fun _ _ => ⟨_, rfl⟩) t)⟩

theorem summary_of_write_utf8 {summary : Summary}
    (h : write .utf8 out t os residual = (last, .ok summary)) :
    summary = ⟨os.map fun o => (o, outcomeOf out t o),
      if residual = [] then none else some (residualOutcome out t)⟩ := by
  obtain ⟨last', h'⟩ := exists_write_utf8 out t os residual
  rw [h'] at h
  cases h
  rfl

end Export
end SchemaDump
