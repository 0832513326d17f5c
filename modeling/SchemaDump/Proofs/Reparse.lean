import SchemaDump.Proofs.Definitions
import SchemaDump.Proofs.Origins

/-! The definition of an object, taken for a dump. It comes to the same object again, with its
indexes, if the headings of the statements that it is made of begin in code. -/
namespace SchemaDump.Dump

open Text Statement Attachment

variable {s st key : Text} {o : Object} {c d : Classified} {cs ds : List Classified}
  {xs : List Text}

/-- Definitions behind an empty line, each on lines of its own. -/
def lines : List Text → List Text
  | [] => []
  | d :: ds => ('\n' :: '\n' :: d) :: ds.map ('\n' :: ·)

theorem length_lines (ds : List Text) : (lines ds).length = ds.length := by
  cases ds <;> simp [lines]

theorem flatten_lines (as : List Attachable) :
    (lines (as.map Attachable.definition)).flatten = indexLines as := by
  cases as with
  | nil => rfl
  | cons a as =>
    have hrest (d : Text) (ds : List Text) :
        ['\n'].intercalate (d :: ds) = d ++ (ds.map ('\n' :: ·)).flatten := by
      induction ds generalizing d with
      | nil => simp
      | cons e ds ih => rw [List.intercalate_cons_cons, ih]; simp
    simp [lines, indexLines, hrest]

theorem map_trimStart_lines {ds : List Text} (h : ∀ d ∈ ds, trimStart d = d) :
    (lines ds).map trimStart = ds := by
  have hn (s : Text) : trimStart ('\n' :: s) = trimStart s := rfl
  cases ds with
  | nil => rfl
  | cons d ds =>
    obtain ⟨hd, hds⟩ := List.forall_mem_cons.mp h
    simp only [lines, List.map_cons, List.map_map, hn, hd]
    congr 1
    exact (List.map_congr_left fun e he => (hn e).trans (hds e he)).trans (List.map_id ds)

/-- Definitions that may follow each other, with any blanks before them, come to what they were
recognised as. -/
theorem parts_flatten (hxs : xs.map trimStart = cs.map Classified.definition)
    (hpairs : (cs.map Classified.definition).Pairwise (Precedes ';'))
    (hfixed : ∀ c ∈ cs, ∃ st, c.IsFixed st) :
    parts xs.flatten = cs.map fun c => .recognised { c with residual := [] } := by
  -- blanks before a statement change neither where it ends nor what it is recognised as
  have hstatements : statements xs.flatten = xs := by
    refine split_flatten_of_trimStart (Or.inl rfl) (hxs ▸ hpairs) fun x hx => ?_
    have hmem : trimStart x ∈ cs.map Classified.definition := hxs ▸ List.mem_map_of_mem hx
    obtain ⟨c, hc, heq⟩ := List.mem_map.mp hmem
    obtain ⟨st, hst⟩ := hfixed c hc
    exact heq ▸ hst.core.alone
  rw [parts, hstatements]
  clear hpairs hstatements
  induction xs generalizing cs with
  | nil =>
    obtain rfl : cs = [] := by simpa using hxs.symm
    rfl
  | cons x xs ih =>
    cases cs with
    | nil => simp at hxs
    | cons c cs =>
      obtain ⟨hx, hxs⟩ := List.cons.inj hxs
      obtain ⟨⟨st, hc⟩, hcs⟩ := List.forall_mem_cons.mp hfixed
      have htrim : trim x = c.definition := by
        rw [← trim_trimStart, hx, hc.trim_eq]
      have hne := (Classified.decides_of_ofStatement? hc.recognised).definition_ne_nil
      have hpart : Part.ofStatement? x = some (.recognised { c with residual := [] }) := by
        rw [Part.ofStatement?, htrim, hc.recognised]
        simpa using hne
      rw [List.filterMap_cons_some hpart, ih hxs hcs, List.map_cons]

/-- What comes of statements that are recognised and have nothing before their headings. -/
theorem of_parts (h : parts s = cs.map fun c => .recognised { c with residual := [] }) :
    unattached s = (cs.filter fun c => !c.kind.isAttachable).map Classified.toObject ∧
      attachables s = (cs.filter fun c => c.kind.isAttachable).map Classified.toAttachable ∧
      fragments s = [] := by
  rw [unattached, attachables, fragments, h]
  clear h
  induction cs with
  | nil => simp
  | cons c cs ih =>
    obtain ⟨ho, ha, hf⟩ := ih
    cases hc : c.kind.isAttachable <;>
      simp [Part.object?, Part.attachable?, Part.residual?, hc, ho, ha, hf, Classified.toObject,
        Classified.toAttachable, Classified.name]

/-- The definition of an object and those of its statements come to the object with them. -/
theorem parse_append_indexLines (hc : c.kind.isAttachable = false)
    (hds : ∀ d ∈ ds, d.kind.isAttachable = true)
    (hpairs : ((c :: ds).map Classified.definition).Pairwise (Precedes ';'))
    (hfixed : ∀ d ∈ c :: ds, ∃ st, d.IsFixed st) :
    (parse (c.definition ++ indexLines (ds.map Classified.toAttachable))).objects =
        [(attachOne (Group.keyed (ds.map Classified.toAttachable)) c.toObject).1] ∧
      (parse (c.definition ++ indexLines (ds.map Classified.toAttachable))).residual = [] := by
  have htrim : ∀ d ∈ (c :: ds).map Classified.definition, trimStart d = d := by
    intro d hd
    obtain ⟨e, he, rfl⟩ := List.mem_map.mp hd
    obtain ⟨st, hst⟩ := hfixed e he
    exact hst.trimStart_eq
  obtain ⟨htrimc, htrimds⟩ := List.forall_mem_cons.mp htrim
  have hflat : (c.definition :: lines (ds.map Classified.definition)).flatten =
      c.definition ++ indexLines (ds.map Classified.toAttachable) := by
    rw [List.flatten_cons, ← flatten_lines, List.map_map]
    rfl
  have hlines : (c.definition :: lines (ds.map Classified.definition)).map trimStart =
      (c :: ds).map Classified.definition := by
    rw [List.map_cons, htrimc, map_trimStart_lines htrimds, List.map_cons]
  have hparts := hflat ▸ parts_flatten hlines hpairs hfixed
  generalize c.definition ++ indexLines (ds.map Classified.toAttachable) = s at hparts
  obtain ⟨hobjects, hattachables, hfragments⟩ := of_parts hparts
  have hnone : ds.filter (fun d => !d.kind.isAttachable) = [] :=
    List.filter_eq_nil_iff.mpr fun d hd => by simp [hds d hd]
  have hall : ds.filter (fun d => d.kind.isAttachable) = ds := List.filter_eq_self.mpr hds
  rw [objects_eq_map, hobjects, hattachables, residual_eq, hfragments]
  simp [hc, hnone, hall, trim, trimStart, trimEnd, dropEnd]

/-- An object that has received nothing but the indexes `ds` comes out of its definition again. -/
theorem Origin.parse_definition_of_indexes (h : Origin s o) (hsequences : o.sequences = none)
    (hconstraints : o.constraints = none)
    (howner : ds ≠ [] → h.classified.kind.isOwner = true)
    (hds : h.classified.kind.isOwner = true →
      named (attachables s) h.classified.toObject.key .index = ds.map Classified.toAttachable)
    (hindex : ∀ d ∈ ds, d.kind = .index ∧ d.toAttachable.key = h.classified.toObject.key)
    (hpairs : ((h.classified :: ds).map Classified.definition).Pairwise (Precedes ';'))
    (hfixed : ∀ d ∈ h.classified :: ds, ∃ st, d.IsFixed st) :
    (parse o.definition).objects = [o] ∧ (parse o.definition).residual = [] := by
  have ho := h.eq_attachOne
  have hsame := attachOne_of_indexes (ho ▸ hsequences) (ho ▸ hconstraints) hds hindex
  rw [hsame] at ho
  have hkinds : ∀ d ∈ ds, d.kind.isAttachable = true := by
    intro d hd
    rw [(hindex d hd).1]
    rfl
  have hparse := parse_append_indexLines h.isObject hkinds hpairs hfixed
  rw [← definition_of_indexes howner hindex, ← ho] at hparse
  exact hparse

theorem isFixed_of_mem_statements (hst : st ∈ statements s)
    (hc : Classified.ofStatement? (trim st) = some c) (hcode : c.BeginsInCode (trim st)) :
    c.IsFixed st := by
  obtain ⟨front, back, hcut⟩ := List.append_of_mem hst
  have hrun : [st] <:+: split [';'] s := ⟨front, back, by simpa [statements] using hcut.symm⟩
  exact Classified.isFixed (by simpa using split_flatten_of_isInfix hrun) hc hcode

/-- Definitions of an object and of its indexes behind it may follow each other. -/
theorem Origin.pairwise_definitions (h : Origin s o) (hc : h.classified.IsFixed h.statement)
    (hfixed : ∀ st ∈ h.after, ∀ d, indexOf? key st = some d → d.IsFixed st) :
    ((h.classified :: h.after.filterMap (indexOf? key)).map Classified.definition).Pairwise
      (Precedes ';') := by
  have hpairs : (h.statement :: h.after).Pairwise (Precedes ';') := by
    have hall : (statements s).Pairwise (Precedes ';') := pairwise_split (Or.inl rfl) s
    rw [h.statements_eq] at hall
    exact (List.pairwise_append.mp hall).2.1
  obtain ⟨hfirst, hlater⟩ := List.pairwise_cons.mp hpairs
  refine List.pairwise_map.mpr (List.pairwise_cons.mpr ⟨fun d hd => ?_, ?_⟩)
  · obtain ⟨st, hst, hindex⟩ := List.mem_filterMap.mp hd
    exact (hfirst st hst).core hc.core (hfixed st hst d hindex).core
  · refine List.pairwise_filterMap.mpr (hlater.imp_of_mem fun {x y} hx hy hxy d hd e he => ?_)
    exact hxy.core (hfixed x hx d hd).core (hfixed y hy e he).core

/-- Definitions are a fixpoint: an object that has no sequences or constraints comes out of its
definition as it is, and nothing is left over. The headings of its statement and of its indexes have
to begin in code, and the indexes to stand behind it. -/
theorem parse_definition (s : Text) :
    (∀ o ∈ (parse s).objects, Nonempty (Origin s o)) ∧
      ∀ o, ∀ h : Origin s o, o.sequences = none → o.constraints = none →
        h.classified.BeginsInCode (trim h.statement) →
        (o.indexes ≠ none → (∀ st ∈ h.before, indexOf? o.key st = none) ∧
          ∀ st ∈ h.after, ∀ d, indexOf? o.key st = some d → d.BeginsInCode (trim st)) →
        (parse o.definition).objects = [o] ∧ (parse o.definition).residual = [] := by
  refine ⟨fun o => exists_origin, fun o h hsequences hconstraints hcode hindexes => ?_⟩
  have hkey : o.key = h.classified.toObject.key := by
    conv => lhs; rw [h.eq_attachOne]
    exact (receives_attachOne _ _).key_eq
  have hmem : h.statement ∈ statements s := by
    rw [h.statements_eq]
    simp
  have hc : h.classified.IsFixed h.statement :=
    isFixed_of_mem_statements hmem h.recognised hcode
  by_cases hnone : o.indexes = none
  · have hds := h.named_index_eq_nil hnone
    have hfixed : ∀ d ∈ [h.classified], ∃ st, d.IsFixed st := by
      intro d hd
      rw [List.mem_singleton.mp hd]
      exact ⟨_, hc⟩
    exact h.parse_definition_of_indexes hsequences hconstraints (by simp) hds (by simp)
      (List.pairwise_singleton _ _) hfixed
  · obtain ⟨hbefore, hafter⟩ := hindexes hnone
    have howner : h.classified.kind.isOwner = true := by
      by_contra hno
      exact hnone (h.indexes_eq.trans (if_neg hno))
    have hfixed : ∀ st ∈ h.after, ∀ d, indexOf? o.key st = some d → d.IsFixed st := by
      intro st hst d hd
      have hin : st ∈ statements s := by
        rw [h.statements_eq]
        simp [hst]
      exact isFixed_of_mem_statements hin (indexOf?_eq_some_iff.mp hd).1 (hafter st hst d hd)
    rw [hkey] at hbefore hfixed
    refine h.parse_definition_of_indexes hsequences hconstraints (fun _ => howner)
      (fun _ => h.named_eq hbefore) ?_ (h.pairwise_definitions hc hfixed) ?_
    · intro d hd
      obtain ⟨st, -, hindex⟩ := List.mem_filterMap.mp hd
      exact (indexOf?_eq_some_iff.mp hindex).2
    · intro d hd
      obtain rfl | hd := List.mem_cons.mp hd
      · exact ⟨_, hc⟩
      · obtain ⟨st, hst, hindex⟩ := List.mem_filterMap.mp hd
        exact ⟨st, hfixed st hst d hindex⟩

theorem parse_definition_two_indexes :
    let s := ("/* t */ CREATE TABLE t (a int);\nCREATE FUNCTION f() AS $$;$$;\n" ++
      "CREATE INDEX i ON t (a);\nCREATE INDEX ON t (a) ").toList
    let table := "CREATE TABLE t (a int);".toList
    let i := "CREATE INDEX i ON t (a);".toList
    let j := "CREATE INDEX ON t (a)".toList
    let o : Object :=
      { kind := .table
        schema := "public".toList
        name := "t".toList
        definition := table ++ '\n' :: '\n' :: (i ++ '\n' :: j)
        qualifiedName := some "public.t".toList
        indexes := some [i, j] }
    o ∈ (parse s).objects ∧ (parse o.definition).objects = [o] ∧
      (parse o.definition).residual = [] := by
  intro s table i j o
  have hcode : ∀ st ∈ statements s, ∀ t ∈ Token.ofText (trim st), t.isCode = false →
      Heading.occurs t.text = false := by
    decide +kernel
  have hplace : (parse s).objects[0]? = some o := by decide +kernel
  let h : Origin s o :=
    { before := []
      statement := "/* t */ CREATE TABLE t (a int);".toList
      after := (statements s).tail
      classified :=
        { kind := .table
          heading := { schema := "public".toList, name := some "t".toList }
          definition := table
          residual := "/* t */ ".toList }
      statements_eq := by decide +kernel
      recognised := by decide +kernel
      isObject := rfl
      place := hplace }
  have hst : h.statement ∈ statements s := by
    rw [h.statements_eq]
    simp
  have hheading := Classified.beginsInCode_of_occurs h.recognised (hcode _ hst)
  refine ⟨List.mem_of_getElem? hplace, (parse_definition s).2 o h rfl rfl hheading fun _ => ?_⟩
  refine ⟨by simp [h], fun st hst d hd => ?_⟩
  have hrecognised := (indexOf?_eq_some_iff.mp hd).1
  exact Classified.beginsInCode_of_occurs hrecognised (hcode st (List.mem_of_mem_tail hst))

end SchemaDump.Dump
