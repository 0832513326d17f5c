import SchemaDump.Proofs.Files.Containment
import Mathlib.Data.List.Infix

/-! Which folders can be made and which files can be opened. The tree before a run tells it: what is
made elsewhere neither helps nor blocks. -/
namespace SchemaDump

/-- A path that an operating system passes on: it is not too long, nor is any name on it. -/
def Path.isAllowed (p : Path) : Bool := p.isShort && p.all fits

namespace Tree

variable {folders files : Path → Prop} {t t' : Tree} {p base names : Path}

/-- The folder that `p` is in lets through, and a folder stands at `p` or can be made there. -/
def admits (t : Tree) (p : Path) : Bool :=
  t.isPassable p.dropLast &&
    match t.get? p with
    | some .folder => true
    | some (.file _) => false
    | none => p.getLast?.all Path.fits && (t.refusal? .add p.dropLast).isNone

/-- There is a folder at `p`, or it can be made with those on the way to it. -/
def canMake (t : Tree) (p : Path) : Bool := p.isShort && p.inits.all t.admits

/-- The fault met first on a way on which all folders are there. -/
def passFault? (t : Tree) (base : Path) : Path → Option Fault
  | [] => none
  | name :: names =>
    if !Path.fits name then some .nameTooLong
    else (t.refusal? .pass (base ++ [name])).or (passFault? t (base ++ [name]) names)

/-- The fault that opening the file at `p` meets if all folders on the way are there. -/
def openFault? (t : Tree) (p : Path) : Option Fault :=
  if !p.isShort then some .nameTooLong
  else (t.passFault? [] p.dropLast).or
    (if p.getLast?.all Path.fits then t.writeFault? p (t.get? p) else some .nameTooLong)

theorem canMake_eq_true_iff :
    t.canMake p = true ↔ p.isShort = true ∧ ∀ q, q <+: p → t.admits q = true := by
  simp [canMake, List.mem_inits]

theorem isPassable_congr (hr : t'.refusals = t.refusals) (p : Path) :
    t'.isPassable p = t.isPassable p := by
  rw [isPassable, isPassable, refusal?_congr hr]

theorem admits_congr (hr : t'.refusals = t.refusals) (h : t'.get? p = t.get? p) :
    t'.admits p = t.admits p := by
  rw [admits, admits, h, isPassable_congr hr, refusal?_congr hr]

@[simp] theorem admits_nil (t : Tree) : t.admits [] = true := rfl

theorem admits_of_folder (h : t.get? p = some .folder) :
    t.admits p = t.isPassable p.dropLast := by
  simp [admits, h]

/-- Below `base`, the folders are made just if each of them is there or can be made. -/
theorem makeBelow_eq_true_iff :
    (t.makeBelow base names).2 = true ↔
      ∀ q, q <+: names → q ≠ [] → t.admits (base ++ q) = true := by
  induction names generalizing t base with
  | nil =>
    simp only [makeBelow, true_iff]
    exact fun q hq hne => (hne (List.prefix_nil.mp hq)).elim
  | cons name names ih =>
    have happend (q : Path) : base ++ [name] ++ q = base ++ name :: q := by simp
    have hdrop : (base ++ [name]).dropLast = base := List.dropLast_concat
    -- the first folder is asked for itself, the others below it
    have hcons (u : Tree) (hu : ∀ q, q ≠ [] → u.admits (base ++ [name] ++ q) =
          t.admits (base ++ [name] ++ q)) (hhere : t.admits (base ++ [name]) = true) :
        (u.makeBelow (base ++ [name]) names).2 = true ↔
          ∀ q, q <+: name :: names → q ≠ [] → t.admits (base ++ q) = true := by
      rw [ih]
      constructor
      · intro h q hq hne
        obtain ⟨d, q, rfl⟩ := List.exists_cons_of_ne_nil hne
        obtain ⟨rfl, hrest⟩ := List.cons_prefix_cons.mp hq
        by_cases hnil : q = []
        · rwa [hnil]
        · rw [← happend, ← hu q hnil]
          exact h q hrest hnil
      · intro h q hq hne
        rw [hu q hne, happend]
        exact h _ (List.cons_prefix_cons.mpr ⟨rfl, hq⟩) (List.cons_ne_nil _ _)
    have hrefused (h : t.admits (base ++ [name]) = false) :
        (false = true) ↔ ∀ q, q <+: name :: names → q ≠ [] → t.admits (base ++ q) = true := by
      refine iff_of_false Bool.false_ne_true fun hall => ?_
      have := hall [name] (List.prefix_append [name] names) (List.cons_ne_nil _ _)
      simp [h] at this
    rw [makeBelow]
    split
    · next hpass =>
      replace hpass : t.isPassable base = false := by simpa using hpass
      exact hrefused (by rw [admits, hdrop, hpass, Bool.false_and])
    · next hpass =>
      replace hpass : t.isPassable base = true := by simpa using hpass
      split
      · next hf => exact hcons t (fun _ _ => rfl) (by rw [admits_of_folder hf, hdrop, hpass])
      · next content hf => exact hrefused (by simp [admits, hf])
      · next hn =>
        split
        · next hmay =>
          refine hcons _ (fun q hq => admits_congr rfl (get?_put_of_ne ?_ t _)) ?_
          · simpa using hq
          · simpa [admits, hn, hdrop, hpass] using hmay
        · next hmay =>
          refine hrefused ?_
          simpa [admits, hn, hdrop, hpass, Option.isSome_iff_ne_none] using hmay

/-- All folders are there in the end if they can be made. -/
theorem get?_makeBelow_of_eq_true {q : Path} (h : (t.makeBelow base names).2 = true)
    (hq : q <+: names) (hne : q ≠ []) :
    (t.makeBelow base names).1.get? (base ++ q) = some .folder := by
  induction names generalizing t base q with
  | nil => exact (hne (List.prefix_nil.mp hq)).elim
  | cons name names ih =>
    obtain ⟨d, q, rfl⟩ := List.exists_cons_of_ne_nil hne
    obtain ⟨rfl, hrest⟩ := List.cons_prefix_cons.mp hq
    have hbelow {u : Tree} (hu : u.get? (base ++ [d]) = some .folder)
        (htrue : (u.makeBelow (base ++ [d]) names).2 = true) :
        (u.makeBelow (base ++ [d]) names).1.get? (base ++ d :: q) = some .folder := by
      by_cases hnil : q = []
      · subst hnil
        exact keeps_makeBelow u _ names _ _ (by simp) hu
      · simpa using ih htrue hrest hnil
    rw [makeBelow] at h ⊢
    split at h
    · cases h
    · next hpass =>
      rw [if_neg hpass]
      split at h
      · next hf => exact hbelow hf h
      · cases h
      · split at h
        · next hmay =>
          rw [if_pos hmay]
          exact hbelow (get?_put_self (by simp) _ _) h
        · cases h

theorem makeFolders_snd (t : Tree) (p : Path) : (t.makeFolders p).2 = t.canMake p := by
  rw [makeFolders, Bool.eq_iff_iff, canMake_eq_true_iff]
  split
  · next hshort =>
    rw [makeBelow_eq_true_iff]
    refine ⟨fun h => ⟨hshort, fun q hq => ?_⟩, fun h q hq _ => h.2 q hq⟩
    by_cases hne : q = []
    · rw [hne, admits_nil]
    · exact h q hq hne
  · next hshort => simp [hshort]

theorem get?_makeFolders {q : Path} (h : t.canMake p = true) (hq : q <+: p) :
    (t.makeFolders p).1.get? q = some .folder := by
  by_cases hne : q = []
  · rw [hne]
    rfl
  · have hmade := h
    rw [← makeFolders_snd] at hmade
    rw [makeFolders, if_pos (canMake_eq_true_iff.mp h).1] at hmade ⊢
    exact get?_makeBelow_of_eq_true hmade hq hne

theorem wayFault?_of_folders (h : ∀ q, q <+: names → q ≠ [] → t.get? (base ++ q) = some .folder) :
    t.wayFault? base names = t.passFault? base names := by
  induction names generalizing base with
  | nil => rfl
  | cons name names ih =>
    have hhere : t.get? (base ++ [name]) = some .folder :=
      h [name] (List.prefix_append [name] names) (List.cons_ne_nil _ _)
    have hbelow : t.wayFault? (base ++ [name]) names = t.passFault? (base ++ [name]) names := by
      refine ih fun q hq _ => ?_
      simpa using h (name :: q) (List.cons_prefix_cons.mpr ⟨rfl, hq⟩) (List.cons_ne_nil _ _)
    rw [wayFault?, passFault?, hhere, hbelow]

/-- A file in a folder that is there is written unless opening it meets a fault. -/
theorem write_eq (h : ∀ q, q <+: p → t.get? q = some .folder) (name : Text) (content : Bytes) :
    t.write (p ++ [name]) content =
      match t.openFault? (p ++ [name]) with
      | some f => .error f
      | none => .ok (t.put (p ++ [name]) (.file content)) := by
  have hway : t.wayFault? [] p = t.passFault? [] p := wayFault?_of_folders fun q hq _ => h q hq
  rw [write, find, openFault?, List.dropLast_concat, List.getLast?_concat, hway]
  cases (p ++ [name]).isShort with
  | false => rfl
  | true =>
    cases t.passFault? [] p with
    | some f => rfl
    | none =>
      cases hname : Path.fits name with
      | false => simp [hname]
      | true =>
        cases hfault : t.writeFault? (p ++ [name]) (t.get? (p ++ [name])) with
        | none => simp [hname, hfault]
        | some f => simp [hname, hfault]

theorem passFault?_congr (hr : t'.refusals = t.refusals) (base names : Path) :
    t'.passFault? base names = t.passFault? base names := by
  induction names generalizing base with
  | nil => rfl
  | cons name names ih => rw [passFault?, passFault?, refusal?_congr hr, ih]

theorem passFault?_eq_none_iff : t.passFault? base names = none ↔
    (∀ name ∈ names, Path.fits name = true) ∧
      ∀ q, q <+: names → q ≠ [] → t.refusal? .pass (base ++ q) = none := by
  induction names generalizing base with
  | nil =>
    refine iff_of_true rfl ⟨by simp, fun q hq hne => ?_⟩
    exact (hne (List.prefix_nil.mp hq)).elim
  | cons name names ih =>
    rw [passFault?]
    split
    · next hfits =>
      refine iff_of_false (by simp) fun h => ?_
      simp [h.1 name List.mem_cons_self] at hfits
    · next hfits =>
      rw [Option.or_eq_none_iff, ih, List.forall_mem_cons]
      constructor
      · rintro ⟨hpass, hnames, hrest⟩
        refine ⟨⟨by simpa using hfits, hnames⟩, fun q hq hne => ?_⟩
        obtain ⟨d, q, rfl⟩ := List.exists_cons_of_ne_nil hne
        obtain ⟨rfl, hbelow⟩ := List.cons_prefix_cons.mp hq
        by_cases hnil : q = []
        · rwa [hnil]
        · simpa using hrest q hbelow hnil
      · rintro ⟨⟨-, hnames⟩, hall⟩
        refine ⟨hall [name] (List.prefix_append [name] names) (List.cons_ne_nil _ _), hnames, ?_⟩
        intro q hq _
        simpa using hall (name :: q) (List.cons_prefix_cons.mpr ⟨rfl, hq⟩) (List.cons_ne_nil _ _)

/-- Files elsewhere and folders anywhere change nothing about a folder that is to be made. -/
theorem Confined.canMake_eq (h : Confined folders files t t')
    (hfiles : ∀ q, files q → ¬ q <+: p) : t'.canMake p = t.canMake p := by
  have hadmits : ∀ q, q <+: p → (t'.admits q = t.admits q) := by
    intro q hq
    cases h.change q with
    | kept hkept => exact admits_congr h.refusals hkept
    | made _ hfits hadd hn hf =>
      rw [admits_of_folder hf, isPassable_congr h.refusals]
      simp [admits, hn, hfits, hadd]
    | put hm _ _ _ => exact (hfiles q hm hq).elim
  rw [Bool.eq_iff_iff, canMake_eq_true_iff, canMake_eq_true_iff]
  refine and_congr_right fun _ => forall₂_congr fun q hq => ?_
  rw [hadmits q hq]

/-- Folders elsewhere and files anywhere change nothing about a file that is to be opened. -/
theorem Confined.openFault?_eq (h : Confined folders files t t') (hfolders : ¬ folders p) :
    t'.openFault? p = t.openFault? p := by
  have hwrite : t'.writeFault? p (t'.get? p) = t.writeFault? p (t.get? p) := by
    rw [writeFault?_congr h.refusals]
    cases h.change p with
    | kept hkept => rw [hkept]
    | made hm _ _ _ _ => exact (hfolders hm).elim
    | put _ hn content hf => rw [hn, hf, writeFault?_file, refusal?_of_writeFault? hn]
  rw [openFault?, openFault?, hwrite, passFault?_congr h.refusals]

end Tree
end SchemaDump
