import SchemaDump.Files.Source
import SchemaDump.Proofs.Blanks

/-! Dumps as they are read. Reading takes all line ends for line feeds and leaves everything else as
it is, so each part of the text comes from a part of the file. -/
namespace SchemaDump.Source

open Text

variable {c : Char} {s u v : Text} {tree : Tree} {p : Path} {content : Bytes}

theorem lineFeedsOnto_append (read front : Text) (s : Text) :
    lineFeedsOnto (read ++ front) s = front.reverse ++ lineFeedsOnto read s := by
  induction read, s using lineFeedsOnto.induct generalizing front with
  | case1 read => simp [lineFeedsOnto]
  | case2 read s ih => simpa [lineFeedsOnto] using ih front
  | case3 read c s hc ih =>
    rw [lineFeedsOnto.eq_3 _ _ _ hc, lineFeedsOnto.eq_3 _ _ _ hc]
    exact ih front

@[simp] theorem lineFeeds_nil : lineFeeds [] = [] := rfl

@[simp] theorem lineFeeds_crlf (s : Text) : lineFeeds ('\r' :: '\n' :: s) = '\n' :: lineFeeds s :=
  lineFeedsOnto_append [] ['\n'] s

theorem lineFeeds_cons (h : ∀ t, c = '\r' → s ≠ '\n' :: t) :
    lineFeeds (c :: s) = (if c = '\r' then '\n' else c) :: lineFeeds s := by
  have hc : ∀ t, c = '\r' → s = '\n' :: t → False := h
  rw [lineFeeds, lineFeedsOnto.eq_3 _ _ _ hc]
  exact lineFeedsOnto_append [] [_] s

/-- Induction along the reading of line ends: two characters that make one, or any other. -/
@[elab_as_elim]
theorem lineFeeds_induct {motive : Text → Prop} (nil : motive [])
    (crlf : ∀ s, motive s → motive ('\r' :: '\n' :: s))
    (cons : ∀ c s, (∀ t, c = '\r' → s ≠ '\n' :: t) → motive s → motive (c :: s)) (s : Text) :
    motive s := by
  induction ([] : Text), s using lineFeedsOnto.induct with
  | case1 _ => exact nil
  | case2 _ s ih => exact crlf s ih
  | case3 _ c s hc ih => exact cons c s hc ih

/-- Where the text is cut in two, so is the file. -/
theorem exists_append_of_lineFeeds (h : lineFeeds s = u ++ v) :
    ∃ s₁ s₂, s = s₁ ++ s₂ ∧ lineFeeds s₁ = u ∧ lineFeeds s₂ = v := by
  induction s using lineFeeds_induct generalizing u with
  | nil =>
    obtain ⟨rfl, rfl⟩ := List.append_eq_nil_iff.mp h.symm
    exact ⟨[], [], rfl, rfl, rfl⟩
  | crlf s ih =>
    rw [lineFeeds_crlf] at h
    cases u with
    | nil => exact ⟨[], _, rfl, rfl, (lineFeeds_crlf s).trans h⟩
    | cons d u =>
      obtain ⟨rfl, hrest⟩ := List.cons.inj h
      obtain ⟨s₁, s₂, rfl, rfl, hv⟩ := ih hrest
      exact ⟨'\r' :: '\n' :: s₁, s₂, rfl, lineFeeds_crlf s₁, hv⟩
  | cons c s hc ih =>
    rw [lineFeeds_cons hc] at h
    cases u with
    | nil => exact ⟨[], _, rfl, rfl, (lineFeeds_cons hc).trans h⟩
    | cons d u =>
      obtain ⟨hd, hrest⟩ := List.cons.inj h
      obtain ⟨s₁, s₂, rfl, rfl, hv⟩ := ih hrest
      refine ⟨c :: s₁, s₂, rfl, ?_, hv⟩
      rw [lineFeeds_cons fun t hr hs => hc (t ++ s₂) hr (by rw [hs]; rfl), hd]

theorem not_mem_lineFeeds (s : Text) : '\r' ∉ lineFeeds s := by
  induction s using lineFeeds_induct with
  | nil => simp
  | crlf s ih => simpa using ih
  | cons c s hc ih =>
    rw [lineFeeds_cons hc]
    split
    · simpa using ih
    · next hr => simpa [eq_comm, hr] using ih

theorem lineFeeds_eq_self (h : '\r' ∉ s) : lineFeeds s = s := by
  induction s with
  | nil => rfl
  | cons c s ih =>
    have hc : c ≠ '\r' := by
      rintro rfl
      simp at h
    have hs : '\r' ∉ s := fun hm => h (List.mem_cons_of_mem c hm)
    rw [lineFeeds_cons fun t hr => (hc hr).elim, if_neg hc, ih hs]

/-- Line ends are blank in every form. -/
theorem withoutBlanks_lineFeeds (s : Text) : withoutBlanks (lineFeeds s) = withoutBlanks s := by
  have hn : isBlank '\n' = true := rfl
  have hr : isBlank '\r' = true := rfl
  induction s using lineFeeds_induct with
  | nil => rfl
  | crlf s ih => simpa [withoutBlanks, hn, hr] using ih
  | cons c s hc ih =>
    rw [lineFeeds_cons hc]
    split
    · next h => simpa [withoutBlanks, h, hn, hr] using ih
    · have hcons (t : Text) : withoutBlanks (c :: t) = withoutBlanks [c] ++ withoutBlanks t :=
        withoutBlanks_append [c] t
      rw [hcons, ih, ← hcons]

theorem trim_lineFeeds_eq_nil_iff : trim (lineFeeds s) = [] ↔ trim s = [] := by
  rw [trim_eq_nil_iff, trim_eq_nil_iff, ← withoutBlanks_eq_nil_iff, ← withoutBlanks_eq_nil_iff,
    withoutBlanks_lineFeeds]

/-- A file with a text that is not blank can be read. -/
theorem read_eq_ok {encoding : Encoding} (h : tree.read p = .ok content)
    (hs : encoding.decode content = .ok s) (hblank : trim s ≠ []) :
    read tree p encoding = .ok (lineFeeds s) := by
  have hne : trim (lineFeeds s) ≠ [] := mt trim_lineFeeds_eq_nil_iff.mp hblank
  simp [read, h, hs, hne]

end SchemaDump.Source
