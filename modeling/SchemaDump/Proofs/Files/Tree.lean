import SchemaDump.Files.Tree
import Mathlib.Data.List.Basic
import Mathlib.Data.List.Induction

/-! What the operations on a file tree do to the nodes at its paths. -/
namespace SchemaDump.Tree

variable {t t' u : Tree} {p q base names : Path} {n m : Node} {content : Bytes}

theorem lookup_filter_ne (hq : q ≠ p) (nodes : List (Path × Node)) :
    (nodes.filter fun e => e.1 != p).lookup q = nodes.lookup q := by
  induction nodes with
  | nil => rfl
  | cons e nodes ih =>
    obtain ⟨r, n⟩ := e
    by_cases hr : r = p
    · have hb : (q == r) = false := beq_eq_false_iff_ne.mpr (hr ▸ hq)
      rw [List.filter_cons_of_neg (by simp [hr]), ih, List.lookup_cons, hb]
    · rw [List.filter_cons_of_pos (by simpa using hr), List.lookup_cons, List.lookup_cons, ih]

@[simp] theorem get?_put_self (hp : p ≠ []) (t : Tree) (n : Node) :
    (t.put p n).get? p = some n := by
  simp [get?, put, hp]

theorem get?_put_of_ne (hq : q ≠ p) (t : Tree) (n : Node) :
    (t.put p n).get? q = t.get? q := by
  by_cases hr : q = []
  · simp [get?, hr]
  · have hb : (q == p) = false := beq_eq_false_iff_ne.mpr hq
    simp [get?, put, hr, hb, List.lookup_cons, lookup_filter_ne hq]

/-- Every node of `t` stands in `t'` as well, but for what is at the paths in `changed`. -/
def Keeps (changed : List Path) (t t' : Tree) : Prop :=
  ∀ q n, q ∉ changed → t.get? q = some n → t'.get? q = some n

theorem Keeps.refl (changed : List Path) (t : Tree) : Keeps changed t t := fun _ _ _ h => h

theorem Keeps.trans {ps qs : List Path} (h : Keeps ps t t') (h' : Keeps qs t' u) :
    Keeps (ps ++ qs) t u := by
  intro q n hq hn
  rw [List.mem_append, not_or] at hq
  exact h' q n hq.2 (h q n hq.1 hn)

theorem Keeps.mono {ps qs : List Path} (h : Keeps ps t t') (hs : ps ⊆ qs) : Keeps qs t t' := by
  intro q n hq hn
  exact h q n (fun hp => hq (hs hp)) hn

theorem keeps_put_of_none (hp : t.get? p = none) (n : Node) : Keeps [] t (t.put p n) := by
  intro q m _ hm
  have hp' : p ≠ [] := by
    rintro rfl
    simp [get?] at hp
  have hq : q ≠ p := by
    rintro rfl
    simp [hp] at hm
  rw [get?_put_of_ne hq, hm]

/-- Folders are made only where nothing stands. -/
theorem keeps_makeBelow (t : Tree) (base names : Path) : Keeps [] t (t.makeBelow base names).1 := by
  induction names generalizing t base with
  | nil => exact .refl _ _
  | cons name names ih =>
    rw [makeBelow]
    split
    · exact .refl _ _
    · split
      · exact ih t _
      · exact .refl _ _
      · next hn =>
        split
        · exact (keeps_put_of_none hn .folder).trans (ih _ _)
        · exact .refl _ _

theorem keeps_makeFolders (t : Tree) (p : Path) : Keeps [] t (t.makeFolders p).1 := by
  rw [makeFolders]
  split
  · exact keeps_makeBelow t [] p
  · exact .refl _ _

@[simp] theorem refusal?_put (t : Tree) (p : Path) (n : Node) :
    (t.put p n).refusal? = t.refusal? := rfl

/-- Making folders changes nothing about what is refused. -/
theorem refusals_makeBelow (t : Tree) (base names : Path) :
    (t.makeBelow base names).1.refusals = t.refusals := by
  induction names generalizing t base with
  | nil => rfl
  | cons name names ih =>
    rw [makeBelow]
    split
    · rfl
    · split
      · exact ih t _
      · rfl
      · split
        · exact ih _ _
        · rfl

theorem refusals_makeFolders (t : Tree) (p : Path) :
    (t.makeFolders p).1.refusals = t.refusals := by
  rw [makeFolders]
  split
  · exact refusals_makeBelow t [] p
  · rfl

theorem find_root (t : Tree) : t.find [] = .ok (some .folder) := by
  have h : Path.isShort [] = true := by decide
  simp [find, h, wayFault?, get?]

/-- A file that can be written is put at its path, which is not the root. -/
theorem write_eq_ok (h : t.write p content = .ok t') :
    p ≠ [] ∧ t' = t.put p (.file content) := by
  have hp : p ≠ [] := by
    rintro rfl
    simp [write, find_root, writeFault?] at h
  refine ⟨hp, ?_⟩
  rw [write] at h
  split at h
  · cases h
  · split at h
    · cases h
    · cases h
      rfl

theorem keeps_put (p : Path) (t : Tree) (n : Node) : Keeps [p] t (t.put p n) := by
  intro q m hq hm
  rw [get?_put_of_ne (by simpa using hq), hm]

theorem Keeps.wayFault?_eq_none (h : Keeps [] t t') (hr : t'.refusals = t.refusals)
    (hway : t.wayFault? base names = none) : t'.wayFault? base names = none := by
  induction names generalizing base with
  | nil => rfl
  | cons name names ih =>
    rw [wayFault?] at hway ⊢
    split at hway
    · cases hway
    · next hfits =>
      rw [if_neg hfits]
      split at hway
      · cases hway
      · cases hway
      · next hfolder =>
        rw [h _ _ List.not_mem_nil hfolder]
        obtain ⟨hpass, hrest⟩ := Option.or_eq_none_iff.mp hway
        simp only [refusal?, hr] at hpass ⊢
        rw [hpass]
        exact ih hrest

/-- A file that can be read can be read when more stands in the tree. -/
theorem Keeps.read_eq_ok (h : Keeps [] t t') (hr : t'.refusals = t.refusals)
    (hread : t.read p = .ok content) : t'.read p = .ok content := by
  rw [read] at hread
  split at hread
  · cases hread
  · cases hread
  · next n hfind =>
    have hfind' : t'.find p = .ok (some n) := by
      rw [find] at hfind ⊢
      split at hfind
      · cases hfind
      · next hshort =>
        rw [if_neg hshort]
        split at hfind
        · cases hfind
        · next hway =>
          rw [h.wayFault?_eq_none hr hway]
          split at hfind
          · next hlast =>
            rw [if_pos hlast, h _ _ List.not_mem_nil (Except.ok.inj hfind)]
          · cases hfind
    rw [read, hfind']
    simpa only [refusal?, hr] using hread

/-- Whatever stands at a path stands in a folder. -/
def IsClosed (t : Tree) : Prop :=
  ∀ p name n, t.get? (p ++ [name]) = some n → t.get? p = some .folder

theorem isClosed_iff :
    t.IsClosed ↔ ∀ e ∈ t.nodes, t.get? e.1.dropLast = some .folder := by
  constructor
  · rintro h ⟨p, n⟩ he
    obtain rfl | ⟨p, name, rfl⟩ := List.eq_nil_or_concat' p
    · rfl
    · obtain ⟨m, hm⟩ : ∃ m, t.get? (p ++ [name]) = some m := by
        rw [get?, if_neg (by simp), ← Option.ne_none_iff_exists', ne_eq, List.lookup_eq_none_iff]
        intro hall
        simpa using hall _ he
      simpa using h p name m hm
  · intro h p name n hn
    rw [get?, if_neg (by simp), List.lookup_eq_some_iff] at hn
    obtain ⟨front, back, hnodes, -⟩ := hn
    have he : (p ++ [name], n) ∈ t.nodes := by simp [hnodes]
    simpa using h _ he

instance : Decidable t.IsClosed := decidable_of_iff _ isClosed_iff.symm

/-- Where nothing stands, nothing stands below. -/
theorem IsClosed.get?_append (h : t.IsClosed) (hp : t.get? p = none) (q : Path) :
    t.get? (p ++ q) = none := by
  induction q using List.reverseRecOn with
  | nil => rwa [List.append_nil]
  | append_singleton q name ih =>
    rw [← List.append_assoc]
    cases hn : t.get? (p ++ q ++ [name]) with
    | none => rfl
    | some n => simp [h _ _ _ hn] at ih

/-- All folders on the way to a folder are there. -/
theorem IsClosed.get?_of_isPrefix (h : t.IsClosed) (hp : t.get? p = some .folder)
    (hq : q <+: p) : t.get? q = some .folder := by
  obtain ⟨r, rfl⟩ := hq
  induction r using List.reverseRecOn with
  | nil => rwa [List.append_nil] at hp
  | append_singleton r name ih =>
    rw [← List.append_assoc] at hp
    exact ih (h _ _ _ hp)

theorem IsClosed.put_folder (h : t.IsClosed) (hp : t.get? p = some .folder) (name : Text) :
    (t.put (p ++ [name]) .folder).IsClosed := by
  intro q d n hn
  by_cases hq : q = p ++ [name]
  · rw [hq, get?_put_self (by simp)]
  · rw [get?_put_of_ne hq]
    by_cases hqd : q ++ [d] = p ++ [name]
    · obtain ⟨rfl, -⟩ := List.append_inj' hqd rfl
      exact hp
    · rw [get?_put_of_ne hqd] at hn
      exact h q d n hn

/-- Folders are made in folders only. -/
theorem IsClosed.makeBelow (h : t.IsClosed) (hbase : t.get? base = some .folder) (names : Path) :
    (t.makeBelow base names).1.IsClosed := by
  induction names generalizing t base with
  | nil => exact h
  | cons name names ih =>
    rw [Tree.makeBelow]
    split
    · exact h
    · split
      · next hf => exact ih h hf
      · exact h
      · split
        · exact ih (h.put_folder hbase name) (get?_put_self (by simp) _ _)
        · exact h

theorem IsClosed.makeFolders (h : t.IsClosed) (p : Path) : (t.makeFolders p).1.IsClosed := by
  rw [Tree.makeFolders]
  split
  · exact h.makeBelow rfl p
  · exact h

end SchemaDump.Tree
