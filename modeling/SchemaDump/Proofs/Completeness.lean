import SchemaDump.Dump
import SchemaDump.Proofs.Blanks
import SchemaDump.Proofs.Classification
import SchemaDump.Proofs.Statement.Scan

/-! Where the text of a dump goes. Each statement is residual, or a residual prefix and a definition,
and up to blanks all of them together are the dump. -/
namespace SchemaDump.Dump

open Text

/-- What statements come to before anything is attached: residual fragments, objects and attachable
statements, each in the order of the statements, and all text in that order. -/
structure Account where
  fragments : List Text := []
  objects : List Object := []
  attachables : List Attachable := []
  text : Text := []
deriving DecidableEq, Repr

namespace Account

def addFragment (a : Account) (st : Text) : Account :=
  { a with fragments := st :: a.fragments, text := st ++ a.text }

def addObject (a : Account) (o : Object) : Account :=
  { a with objects := o :: a.objects, text := o.definition ++ a.text }

def addAttachable (a : Account) (b : Attachable) : Account :=
  { a with attachables := b :: a.attachables, text := b.definition ++ a.text }

end Account

/-- Each statement that is not blank is one fragment, or a prefix and either an object or an
attachable statement. -/
inductive Accounts : List Text → Account → Prop
  | nil : Accounts [] {}
  | blank {st : Text} {sts : List Text} {a : Account} :
      (∀ c ∈ st, isBlank c) → Accounts sts a → Accounts (st :: sts) a
  | unrecognised {st : Text} {sts : List Text} {a : Account} :
      ¬ (∀ c ∈ st, isBlank c) → Classified.ofStatement? (trim st) = none → Accounts sts a →
      Accounts (st :: sts) (a.addFragment st)
  | object {st : Text} {sts : List Text} {a : Account} {c : Classified} :
      ¬ (∀ c ∈ st, isBlank c) → Classified.ofStatement? (trim st) = some c →
      c.residual ++ c.definition = trim st → c.kind.isAttachable = false → Accounts sts a →
      Accounts (st :: sts) ((a.addObject c.toObject).addFragment c.residual)
  | attachable {st : Text} {sts : List Text} {a : Account} {c : Classified} :
      ¬ (∀ c ∈ st, isBlank c) → Classified.ofStatement? (trim st) = some c →
      c.residual ++ c.definition = trim st → c.kind.isAttachable = true → Accounts sts a →
      Accounts (st :: sts) ((a.addAttachable c.toAttachable).addFragment c.residual)

/-- The account holds what is made of the parts. -/
structure Account.Holds (a : Account) (ps : List Part) : Prop where
  objects : ps.filterMap Part.object? = a.objects
  attachables : ps.filterMap Part.attachable? = a.attachables
  fragments : (ps.filterMap Part.residual?).flatten = a.fragments.flatten

variable {st : Text} {sts : List Text} {a : Account} {ps : List Part} {c : Classified}

theorem Accounts.withoutBlanks_text (h : Accounts sts a) :
    withoutBlanks a.text = withoutBlanks sts.flatten := by
  induction h with
  | nil => rfl
  | blank hb _ ih => simp [ih, withoutBlanks_eq_nil_iff.mpr hb]
  | unrecognised _ _ _ ih => simp [Account.addFragment, ih]
  | @object st sts a c _ _ hc _ _ ih =>
    have hd := congrArg withoutBlanks hc
    simp only [withoutBlanks_append, withoutBlanks_trim] at hd
    simp [Account.addFragment, Account.addObject, Classified.toObject, ih, ← hd]
  | @attachable st sts a c _ _ hc _ _ ih =>
    have hd := congrArg withoutBlanks hc
    simp only [withoutBlanks_append, withoutBlanks_trim] at hd
    simp [Account.addFragment, Account.addAttachable, Classified.toAttachable, ih, ← hd]

theorem ofStatement?_of_blank (h : ∀ c ∈ st, isBlank c) : Part.ofStatement? st = none := by
  simp [Part.ofStatement?, trim_eq_nil_iff.mpr h]

theorem ofStatement?_of_none (hb : ¬ ∀ c ∈ st, isBlank c)
    (h : Classified.ofStatement? (trim st) = none) :
    Part.ofStatement? st = some (.unrecognised st) := by
  simp [Part.ofStatement?, mt trim_eq_nil_iff.mp hb, h]

theorem ofStatement?_of_some (hb : ¬ ∀ c ∈ st, isBlank c)
    (h : Classified.ofStatement? (trim st) = some c) :
    Part.ofStatement? st = some (.recognised c) := by
  simp [Part.ofStatement?, mt trim_eq_nil_iff.mp hb, h]

theorem Account.Holds.unrecognised (h : a.Holds ps) (st : Text) :
    (a.addFragment st).Holds (.unrecognised st :: ps) where
  objects := by simp [List.filterMap_cons, Part.object?, addFragment, h.objects]
  attachables := by simp [List.filterMap_cons, Part.attachable?, addFragment, h.attachables]
  fragments := by simp [Part.residual?, addFragment, h.fragments]

/-- A prefix without characters is no fragment, which the text of the fragments does not show. -/
theorem flatten_residual_recognised (c : Classified) (ps : List Part) :
    ((Part.recognised c :: ps).filterMap Part.residual?).flatten =
      c.residual ++ (ps.filterMap Part.residual?).flatten := by
  cases hr : c.residual <;> simp [Part.residual?, hr]

theorem Account.Holds.object (h : a.Holds ps) (hk : c.kind.isAttachable = false) :
    ((a.addObject c.toObject).addFragment c.residual).Holds (.recognised c :: ps) where
  objects := by simp [Part.object?, addFragment, addObject, hk, h.objects]
  attachables := by simp [Part.attachable?, addFragment, addObject, hk, h.attachables]
  fragments := by
    rw [flatten_residual_recognised, h.fragments]
    rfl

theorem Account.Holds.attachable (h : a.Holds ps) (hk : c.kind.isAttachable = true) :
    ((a.addAttachable c.toAttachable).addFragment c.residual).Holds (.recognised c :: ps) where
  objects := by simp [Part.object?, addFragment, addAttachable, hk, h.objects]
  attachables := by simp [Part.attachable?, addFragment, addAttachable, hk, h.attachables]
  fragments := by
    rw [flatten_residual_recognised, h.fragments]
    rfl

theorem exists_accounts (sts : List Text) :
    ∃ a, Accounts sts a ∧ a.Holds (sts.filterMap Part.ofStatement?) := by
  induction sts with
  | nil => exact ⟨{}, .nil, rfl, rfl, rfl⟩
  | cons st sts ih =>
    obtain ⟨a, ha, hs⟩ := ih
    by_cases hb : ∀ c ∈ st, isBlank c
    · rw [List.filterMap_cons_none (ofStatement?_of_blank hb)]
      exact ⟨a, .blank hb ha, hs⟩
    cases hc : Classified.ofStatement? (trim st) with
    | none =>
      rw [List.filterMap_cons_some (ofStatement?_of_none hb hc)]
      exact ⟨_, .unrecognised hb hc ha, hs.unrecognised st⟩
    | some c =>
      have hd := Classified.residual_append_definition hc
      rw [List.filterMap_cons_some (ofStatement?_of_some hb hc)]
      cases hk : c.kind.isAttachable with
      | false => exact ⟨_, .object hb hc hd hk ha, hs.object hk⟩
      | true => exact ⟨_, .attachable hb hc hd hk ha, hs.attachable hk⟩

/-- Nothing is lost, doubled or moved before attachment, blanks apart, and the residual text is made
of the fragments alone. -/
theorem parse_accounts (s : Text) : ∃ a, Accounts (statements s) a ∧
    (parse s).objects = (Attachment.attach a.objects a.attachables).1 ∧
    withoutBlanks a.text = withoutBlanks s ∧
    withoutBlanks (parse s).residual = withoutBlanks a.fragments.flatten := by
  obtain ⟨a, ha, hs⟩ := exists_accounts (statements s)
  refine ⟨a, ha, ?_, ?_, ?_⟩
  · rw [← hs.objects, ← hs.attachables]
    rfl
  · rw [ha.withoutBlanks_text, statements, Statement.flatten_split]
  · have hn : ∀ c ∈ ['\n'], isBlank c := by simp [isBlank]
    rw [← hs.fragments, ← withoutBlanks_intercalate hn]
    exact withoutBlanks_trim _

end SchemaDump.Dump
