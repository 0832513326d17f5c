import SchemaDump.Proofs.Attachment
import SchemaDump.Proofs.Creations
import SchemaDump.Proofs.Reparse
import SchemaDump.Proofs.Statement.Passage

/-! Clauses and indexes written into the definition of a table. A clause leads from code to code,
and the line end before it leaves a comment that the list of columns ends in. So what stands behind
the clauses is scanned as before, and the definition is cut behind the table and each index. -/
namespace SchemaDump

open Text Statement Identifier Reading Attachment

variable {definition s t x name clause inside closing indent rest : Text} {clauses : List Text}
  {m n : Mode} {c : Char}

namespace Statement

/-- Characters of a sort to which no other character belongs than neutral ones. -/
theorem isNeutral_of {p : Char → Bool} (hp : ('$' :: ';' :: '\x27' :: '"' :: marks).any p = false)
    (h : p c = true) : IsNeutral c :=
  fun hc => List.any_eq_false.mp hp c hc h

theorem isNeutral_of_isBlank (h : isBlank c = true) : IsNeutral c := isNeutral_of (by decide) h

theorem isNeutral_of_isWord (h : isWord c = true) : IsNeutral c := isNeutral_of (by decide) h

/-- A letter of a keyword that is read is neutral. -/
theorem isNeutral_of_map_capital {w : String} (hw : w.toList.all isWord = true)
    (h : s.map capital = w.toList) : ∀ c ∈ s, IsNeutral c := by
  intro c hc
  have hmem : capital c ∈ w.toList := h ▸ List.mem_map_of_mem hc
  exact isNeutral_of_isWord (isWord_of_isWord_capital (List.all_eq_true.mp hw _ hmem))

/-- Blanks end a line comment, but nothing else that they stand in. -/
theorem Leads.mode_of_isBlank (h : Leads m s .code) (hs : ∀ c ∈ s, isBlank c = true) :
    m = .code ∨ m = .lineComment := by
  induction s generalizing m with
  | nil => exact Or.inl (h.unique (leads_nil m)).symm
  | cons c s ih =>
    obtain ⟨hc, hs⟩ := List.forall_mem_cons.mp hs
    have hneutral := isNeutral_of_isBlank hc
    have hafter := ih (hneutral.leads_cons_iff.mp h) hs
    simp only [IsNeutral, List.mem_cons, not_or] at hneutral
    obtain ⟨-, -, hstring, hquote, -⟩ := hneutral
    cases m with
    | code => exact Or.inl rfl
    | lineComment => exact Or.inr rfl
    | blockComment => simp [Mode.after_blockComment] at hafter
    | string => simp [Mode.after_string, hstring] at hafter
    | quotedIdentifier => simp [Mode.after_quotedIdentifier, hquote] at hafter

/-- Doubled quotes lead out of the name and in again, the last one out of it. -/
theorem leads_doubled (hs : '$' ∉ s) : Leads .quotedIdentifier (doubled s ++ ['"']) .code := by
  induction s with
  | nil => exact ⟨by decide, rfl⟩
  | cons c s ih =>
    obtain ⟨hc, hs⟩ := not_or.mp fun hm => hs (List.mem_cons.mpr hm)
    have hrest := ih hs
    by_cases hquote : c = '"'
    · subst hquote
      have hseam := seam_concat (c := '"') (by decide) ['"'] (doubled s ++ ['"'])
      exact (leads_append_iff hseam).mpr ⟨.quotedIdentifier, ⟨by decide, rfl⟩, hrest⟩
    · have hno : NoMark .quotedIdentifier c ((doubled s ++ ['"']).map .plain) := fun _ _ _ => rfl
      have hafter : Mode.after .quotedIdentifier c = .quotedIdentifier := by
        rw [Mode.after_quotedIdentifier, if_neg hquote]
      have hcut : Mode.quotedIdentifier.cuts [';'] c = false := by simp [Mode.cuts, hafter]
      rw [doubled_cons hquote, List.cons_append, leads_cons_iff hno (Ne.symm hc) hcut, hafter]
      exact hrest

/-- An identifier leads from code to code. -/
theorem leads_of_wellFormed (h : WellFormed name) (hd : '$' ∉ name) : Leads .code name .code := by
  cases h with
  | @bare c s hc hs =>
    refine leads_of_isNeutral fun d hmem => ?_
    obtain rfl | hmem' := List.mem_cons.mp hmem
    · exact isNeutral_of_isWord (Bool.and_eq_true_iff.mp hc).1
    · have hcont := hs d hmem'
      have hne : d ≠ '$' := by
        rintro rfl
        exact hd hmem
      rw [continuesBare] at hcont
      exact isNeutral_of_isWord (by simpa [hne] using hcont)
  | @quoted s hs =>
    have hs : '$' ∉ s := by
      intro hm
      have hdoubled : '$' ∈ doubled s := List.mem_flatMap.mpr ⟨'$', hm, by decide⟩
      exact hd (List.mem_cons_of_mem _ (List.mem_append_left _ hdoubled))
    have hseam := seam_concat (c := '"') (by decide) [] (doubled s ++ ['"'])
    exact (leads_append_iff hseam).mpr ⟨.quotedIdentifier, ⟨by decide, rfl⟩, leads_doubled hs⟩

end Statement

namespace Clause

/-- The body is what stands between blanks and the last semicolon. -/
theorem exists_of_mem_body (h : (t, rest) ∈ body s) :
    ∃ gap r, s = gap ++ (t ++ ';' :: r) ∧ IsGap gap ∧ ';' ∉ r := by
  have hs := List.takeWhile_append_dropWhile (p := isBlank) (l := s)
  have hblanks : ∀ c ∈ s.takeWhile isBlank, isBlank c = true := fun c => List.mem_takeWhile_imp
  unfold body at h
  generalize s.takeWhile isBlank = blanks at h hs hblanks
  generalize s.dropWhile isBlank = text at h hs
  split at h
  · next b bs d u back hcut =>
    obtain ⟨rfl, rfl⟩ := Prod.mk.inj (List.mem_singleton.mp h)
    obtain ⟨r, rfl, rfl, hr⟩ := splitLast_eq_some hcut
    exact ⟨b :: bs, r, hs.symm, ⟨List.cons_ne_nil b bs, hblanks⟩, hr⟩
  · next b b' more back hcut =>
    obtain ⟨rfl, rfl⟩ := Prod.mk.inj (List.mem_singleton.mp h)
    obtain ⟨r, rfl, rfl, hr⟩ := splitLast_eq_some hcut
    obtain rfl | ⟨us, e, rfl⟩ := more.eq_nil_or_concat'
    · refine ⟨[b], r, hs.symm, ⟨List.cons_ne_nil b [], fun c hc => ?_⟩, hr⟩
      exact hblanks c (List.mem_append_left [b'] hc)
    · refine ⟨b :: b' :: us, r, ?_, ⟨List.cons_ne_nil b _, fun c hc => ?_⟩, hr⟩
      · simp [← hs]
      · exact hblanks c (List.mem_append_left [e] hc)
  · cases h

/-- An added constraint: two words, the name, and the body behind blanks, up to the last
semicolon. -/
theorem exists_of_mem_addedConstraint (h : ((name, t), rest) ∈ addedConstraint s) :
    ∃ words gap r, s = words ++ (name ++ (gap ++ (t ++ ';' :: r))) ∧
      words ≠ [] ∧ (∀ c ∈ words, IsNeutral c) ∧ WellFormed name ∧ IsGap gap ∧ ';' ∉ r := by
  obtain ⟨_, s₁, hword₁, h⟩ := mem_bind.mp h
  obtain ⟨_, s₂, hblanks₁, h⟩ := mem_bind.mp h
  obtain ⟨_, s₃, hword₂, h⟩ := mem_bind.mp h
  obtain ⟨_, s₄, hblanks₂, h⟩ := mem_bind.mp h
  obtain ⟨name', s₅, hname, h⟩ := mem_bind.mp h
  obtain ⟨t', s₆, hbody, h⟩ := mem_bind.mp h
  obtain ⟨heq, rfl⟩ := mem_pure.mp h
  obtain ⟨rfl, rfl⟩ := Prod.mk.inj heq
  obtain ⟨add, rfl, hadd⟩ := afterWord_eq_some_iff.mp (mem_word.mp hword₁)
  obtain ⟨gap₁, rfl, hne, hgap₁⟩ := exists_of_mem_blanks hblanks₁
  obtain ⟨constraint, rfl, hconstraint⟩ := afterWord_eq_some_iff.mp (mem_word.mp hword₂)
  obtain ⟨gap₂, rfl, -, hgap₂⟩ := exists_of_mem_blanks hblanks₂
  obtain ⟨rfl, hwell⟩ := eq_append_of_mem_identifier hname
  obtain ⟨gap, r, rfl, hgap, hr⟩ := exists_of_mem_body hbody
  refine ⟨add ++ (gap₁ ++ (constraint ++ gap₂)), gap, r, by simp, by simp [hne], ?_, hwell, hgap,
    hr⟩
  simp only [List.forall_mem_append]
  exact ⟨isNeutral_of_map_capital (by decide) hadd, fun c hc => isNeutral_of_isBlank (hgap₁ c hc),
    isNeutral_of_map_capital (by decide) hconstraint,
    fun c hc => isNeutral_of_isBlank (hgap₂ c hc)⟩

/-- The constraint that is found in the statement, if there is one, begins in code. -/
def BeginsInCode (definition : Text) : Prop :=
  ∀ found ∈ addedConstraint.search definition,
    InCode (definition.take (definition.length - found.here.length)) definition

instance (definition : Text) : Decidable (BeginsInCode definition) :=
  inferInstanceAs (Decidable (∀ found ∈ _, _))

/-- The clause of a constraint leads from code to code. -/
theorem leads_of_constraint? (h : IsPlain definition) (hcode : BeginsInCode definition)
    (hclause : constraint? definition = some clause) : Leads .code clause .code := by
  obtain ⟨found, hsearch, rfl⟩ := Option.map_eq_some_iff.mp hclause
  obtain ⟨front, more, rfl, hread, -⟩ := search_eq_some hsearch
  have hin := hcode found hsearch
  rw [List.length_append, Nat.add_sub_cancel, List.take_left] at hin
  obtain ⟨⟨name, t⟩, here, rest⟩ := found
  have hmem : ((name, t), rest) ∈ addedConstraint here := by
    rw [hread]
    exact List.mem_cons_self
  obtain ⟨words, gap, r, rfl, hne, hwords, hname, ⟨hgapne, hgap⟩, hr⟩ :=
    exists_of_mem_addedConstraint hmem
  obtain ⟨u, hu, -, hleads⟩ := h.leads_behind hin (seam_append hne hwords _ _) (by simp [hne])
  -- the semicolon behind the body is the one at the end
  obtain rfl : u = words ++ (name ++ (gap ++ t)) := by
    have hbody : splitLast ';' ((words ++ (name ++ (gap ++ t))) ++ ';' :: r) = some (_, ';' :: r) :=
      splitLast_append hr
    have hend : splitLast ';' (u ++ [';']) = some (u, [';']) := splitLast_append List.not_mem_nil
    simp only [List.append_assoc] at hbody
    rw [← hu, hbody] at hend
    exact (Prod.mk.inj (Option.some.inj hend)).1.symm
  have hbehind := (leads_append_iff_of_isNeutral hwords).mp hleads
  have hgap := fun c hc => isNeutral_of_isBlank (hgap c hc)
  obtain ⟨n, hn, hbody⟩ := (leads_append_iff (seam_append hgapne hgap _ _)).mp hbehind
  have hnameLeads := leads_of_wellFormed hname hn.noDollar
  obtain rfl := hn.unique hnameLeads
  have ht := (leads_append_iff_of_isNeutral hgap).mp hbody
  have hspace : ∀ c ∈ [' '], IsNeutral c := isNeutral_of_all (by decide)
  change Leads .code ("CONSTRAINT ".toList ++ name ++ ' ' :: t) .code
  rw [List.append_assoc, leads_append_iff_of_isNeutral (isNeutral_of_all (by decide)),
    leads_append_iff (seam_cons (by decide) _ _)]
  exact ⟨.code, hn, (leads_append_iff_of_isNeutral hspace).mpr ht⟩

end Clause

namespace Attachment

/-- The parenthesis before which clauses are put stands in code, if there is one. -/
def ClosesInCode (definition : Text) : Prop :=
  ∀ cut ∈ closingParenthesis? definition, InCode cut.1 definition

instance (definition : Text) : Decidable (ClosesInCode definition) :=
  inferInstanceAs (Decidable (∀ cut ∈ _, _))

theorem seam_lines (s : Text) (indent : Text) (clauses : List Text) (t : Text) :
    Seam s (clauses.flatMap (fun clause => ',' :: '\n' :: indent ++ clause) ++ '\n' :: t) := by
  cases clauses with
  | nil => exact seam_cons (by decide) s t
  | cons clause clauses => exact seam_cons (by decide) s _

/-- Clauses on lines of their own lead back to code, also from a comment that ends there. -/
theorem leads_lines (hm : m = .code ∨ m = .lineComment) (hindent : ∀ c ∈ indent, IsNeutral c)
    (hclauses : ∀ clause ∈ clauses, Leads .code clause .code) (ht : Leads .code t .code) :
    Leads m (clauses.flatMap (fun clause => ',' :: '\n' :: indent ++ clause) ++ '\n' :: t)
      .code := by
  induction clauses generalizing m with
  | nil =>
    have hseam := seam_concat (c := '\n') (by decide) [] t
    exact (leads_append_iff hseam).mpr ⟨.code, leads_newline hm, ht⟩
  | cons clause clauses ih =>
    obtain ⟨hclause, hclauses⟩ := List.forall_mem_cons.mp hclauses
    have hrest := ih (Or.inl rfl) hclauses
    have hseam := seam_lines clause indent clauses t
    rw [List.flatMap_cons, List.append_assoc]
    generalize clauses.flatMap (fun clause => ',' :: '\n' :: indent ++ clause) ++ '\n' :: t = lines
      at hrest hseam ⊢
    have hcomma := seam_concat (c := ',') (by decide) [] ('\n' :: (indent ++ (clause ++ lines)))
    have hnewline := seam_concat (c := '\n') (by decide) [] (indent ++ (clause ++ lines))
    have hline := (leads_append_iff hseam).mpr ⟨.code, hclause, hrest⟩
    have hindented := (leads_append_iff_of_isNeutral hindent).mpr hline
    have hlast := (leads_append_iff hnewline).mpr ⟨.code, leads_newline hm, hindented⟩
    have hall := (leads_append_iff hcomma).mpr ⟨m, leads_comma hm, hlast⟩
    simpa using hall

/-- A table is a single statement with the clauses as well. -/
theorem isPlain_join (h : IsPlain definition) (hcode : ClosesInCode definition)
    (hcut : closingParenthesis? definition = some (inside, closing))
    (hindent : ∀ c ∈ indent, IsNeutral c)
    (hclauses : ∀ clause ∈ clauses, Leads .code clause .code) :
    IsPlain (join indent inside clauses ++ closing) := by
  have hin := hcode (inside, closing) hcut
  obtain ⟨tail, rfl, rfl, -⟩ := closingParenthesis?_eq_some hcut
  by_cases hn : clauses = []
  · simpa [join, hn] using h
  · obtain ⟨u, hu, hinside, hclosing⟩ :=
      h.leads_behind hin (seam_cons (by decide) inside tail) (List.cons_ne_nil ')' tail)
    have hblanks : ∀ c ∈ inside.rtakeWhile isBlank, isBlank c = true :=
      fun c => List.mem_rtakeWhile_imp
    have hseam : Seam (trimEnd inside) (inside.rtakeWhile isBlank) :=
      Or.inr fun c hc => (isNeutral_of_isBlank (hblanks c (List.mem_of_mem_head? hc))).not_mem_marks
    rw [← trimEnd_append_rtakeWhile inside, leads_append_iff hseam] at hinside
    obtain ⟨m, htrim, hend⟩ := hinside
    have hlines := leads_lines (hend.mode_of_isBlank hblanks) hindent hclauses hclosing
    have hjoined := (leads_append_iff (seam_lines _ indent clauses u)).mpr ⟨m, htrim, hlines⟩
    refine isPlain_iff.mpr ⟨_, ?_, hjoined⟩
    simp [join, hn, hu]

theorem isPlain_addConstraints {as : List Attachable} (h : IsPlain definition)
    (hcode : ClosesInCode definition)
    (has : ∀ a ∈ as, IsPlain a.definition ∧ Clause.BeginsInCode a.definition) :
    IsPlain (addConstraints definition as).1 := by
  cases hcut : closingParenthesis? definition with
  | none => simpa [addConstraints, hcut] using h
  | some cut =>
    obtain ⟨inside, closing⟩ := cut
    rw [fst_addConstraints hcut]
    refine isPlain_join h hcode hcut ?_ ?_
    · intro c hc
      exact isNeutral_of_isBlank (Indent.isBlank_of_mem_detect hc)
    · intro clause hclause
      rw [joinedClauses, hcut, Option.isSome_some, if_pos rfl] at hclause
      obtain ⟨a, ha, hconstraint⟩ := List.mem_filterMap.mp hclause
      obtain ⟨hplain, hbegins⟩ := has a ha
      exact Clause.leads_of_constraint? hplain hbegins hconstraint

theorem isPlain_of_mem_lines {ds : List Text} (h : ∀ d ∈ ds, IsPlain d) :
    ∀ line ∈ Dump.lines ds, IsPlain line := by
  have hbreak : ∀ c ∈ ['\n'], IsNeutral c := isNeutral_of_all (by decide)
  have hbreaks : ∀ c ∈ ['\n', '\n'], IsNeutral c := isNeutral_of_all (by decide)
  cases ds with
  | nil => nofun
  | cons d ds =>
    obtain ⟨hd, hds⟩ := List.forall_mem_cons.mp h
    intro line hline
    obtain rfl | hline := List.mem_cons.mp hline
    · exact hd.append_of_isNeutral hbreaks
    · obtain ⟨e, he, rfl⟩ := List.mem_map.mp hline
      exact (hds e he).append_of_isNeutral hbreak

/-- After attachment, the definition of a table is cut into the table with its constraints and,
behind line breaks, each of its indexes. -/
theorem attach_splits (os : List Object) (as : List Attachable) {i : Nat} {o : Object}
    (ho : os[i]? = some o) (hsequences : o.statements as .sequence = [])
    (htable : IsPlain o.definition) (hcloses : ClosesInCode o.definition)
    (hconstraints : ∀ a ∈ o.statements as .constraint,
      IsPlain a.definition ∧ Clause.BeginsInCode a.definition)
    (hindexes : ∀ a ∈ o.statements as .index, IsPlain a.definition) :
    ∃ o' inside closing joined, (attach os as).1[i]? = some o' ∧
      o.definition = inside ++ closing ∧
      (closing.head? = some ')' ∨
        joinedClauses o.definition (o.statements as .constraint) = []) ∧
      Joins inside (joinedClauses o.definition (o.statements as .constraint)) joined ∧
      split [';'] o'.definition = (joined ++ closing) ::
        Dump.lines ((o.statements as .index).map Attachable.definition) ∧
      (split [';'] o'.definition).length = 1 + (o.statements as .index).length := by
  have hget : (attach os as).1[i]? = some (attachOne (Group.keyed as) o).1 := by
    simp [attach, ho]
  have hdefinition := definition_attachOne as o
  rw [hsequences, addSequences, ← Dump.flatten_lines, ← List.flatten_cons] at hdefinition
  have hlines : ∀ line ∈ Dump.lines ((o.statements as .index).map Attachable.definition),
      IsPlain line := isPlain_of_mem_lines (List.forall_mem_map.mpr hindexes)
  have htable := isPlain_addConstraints htable hcloses hconstraints
  obtain ⟨inside, closing, joined, hcut, hclosing, hjoins, hadd⟩ :=
    exists_joins_addConstraints o.definition (o.statements as .constraint)
  have hsplit := split_flatten_of_isPlain (List.forall_mem_cons.mpr ⟨htable, hlines⟩)
  rw [← hdefinition, hadd] at hsplit
  refine ⟨_, inside, closing, joined, hget, hcut, hclosing, hjoins, hsplit, ?_⟩
  rw [hsplit, List.length_cons, Dump.length_lines, List.length_map, Nat.add_comm]

theorem attach_splits_trailing_comment :
    let table := ("CREATE TABLE t (\n    a int,\n" ++
      "    b text DEFAULT ');' -- it's last)\n);").toList
    let check := "ALTER TABLE ONLY t\n    ADD CONSTRAINT \"c;--\" CHECK (b <> ';');".toList
    let unique := "ALTER TABLE t ADD CONSTRAINT u UNIQUE (a) -- /*;\n;".toList
    let i := "CREATE INDEX i ON t (a);".toList
    let j := "CREATE INDEX j ON t (b) WHERE b <> ';';".toList
    let o : Object :=
      { kind := .table, schema := "public".toList, name := "t".toList, definition := table }
    let a (kind : Kind) (definition : Text) : Attachable :=
      { kind := kind
        schema := "public".toList
        table := "t".toList
        name := none
        definition := definition }
    let as := [a .index i, a .constraint check, a .index j, a .constraint unique]
    let joined := ("CREATE TABLE t (\n    a int,\n" ++
      "    b text DEFAULT ');' -- it's last),\n" ++
      "    CONSTRAINT \"c;--\" CHECK (b <> ';'),\n" ++
      "    CONSTRAINT u UNIQUE (a) -- /*;\n\n);").toList
    ∃ o', (attach [o] as).1[0]? = some o' ∧
      split [';'] o'.definition = [joined, '\n' :: '\n' :: i, '\n' :: j] := by
  intro table check unique i j o a as joined
  have hindexes : o.statements as .index = [a .index i, a .index j] := by decide
  have hconstraints : o.statements as .constraint =
      [a .constraint check, a .constraint unique] := by
    decide
  obtain ⟨o', inside, closing, added, hget, -, -, -, hsplit, -⟩ :=
    attach_splits [o] as (i := 0) rfl (by decide) (by decide +kernel) (by decide +kernel)
      (by rw [hconstraints]; decide +kernel) (by rw [hindexes]; decide +kernel)
  rw [hindexes] at hsplit
  have hdefinition : o'.definition = [joined, '\n' :: '\n' :: i, '\n' :: j].flatten := by
    have hmap : (attach [o] as).1[0]?.map Object.definition =
        some [joined, '\n' :: '\n' :: i, '\n' :: j].flatten := by
      decide +kernel
    rw [hget] at hmap
    exact Option.some.inj hmap
  have htable : added ++ closing = joined := by
    have hflatten := flatten_split [';'] o'.definition
    rw [hsplit, hdefinition] at hflatten
    exact List.append_cancel_right hflatten
  exact ⟨o', hget, htable ▸ hsplit⟩

end Attachment
end SchemaDump
