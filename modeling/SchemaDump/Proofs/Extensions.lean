import SchemaDump.Proofs.Attachables

/-! Extensions. The schema stands behind `SCHEMA` or `WITH SCHEMA`. But each of the two words may be
missing for itself, so where neither clause is there, the word that follows the name is taken for the
schema. -/
namespace SchemaDump

open Text Reading Identifier

namespace Identifier

variable {shorter : List Nat} {n k : Nat} {s t rest : Text}

/-- The longest identifier that a text begins with. -/
structure IsLongest (t s : Text) : Prop where
  wellFormed : WellFormed t
  isPrefix : t <+: s
  longest : ∀ u, WellFormed u → u <+: s → u.length ≤ t.length

theorem IsLongest.eq {u : Text} (ht : IsLongest t s) (hu : IsLongest u s) : t = u := by
  have htu := ht.longest u hu.wellFormed hu.isPrefix
  have hut := hu.longest t ht.wellFormed ht.isPrefix
  exact (List.prefix_of_prefix_length_le ht.isPrefix hu.isPrefix hut).eq_of_length_le htu

theorem exists_head_closings (hk : k ∈ shorter.head?) (hn : k ≤ n) (s : Text) :
    ∃ m ∈ (closings shorter n s).head?, k ≤ m := by
  obtain h | ⟨m, more, h, hm⟩ := closings_eq shorter n s
  · exact ⟨k, by rwa [h], Nat.le_refl k⟩
  · exact ⟨m, by rw [h]; rfl, by omega⟩

/-- The first length is that of the name up to any of its closing quotes, or more. -/
theorem exists_head_closings_doubled (hn : n ≠ 0) (h : n = 1 → t ≠ []) (shorter : List Nat)
    (rest : Text) : ∃ m ∈ (closings shorter n (doubled t ++ '"' :: rest)).head?,
      n + (doubled t).length + 1 ≤ m := by
  induction t generalizing shorter n with
  | nil =>
    have hone : n ≠ 1 := fun hone => h hone rfl
    by_cases hquote : rest.head? = some '"'
    · obtain ⟨more, rfl⟩ := List.head?_eq_some_iff.mp hquote
      have hclose : closings shorter n (doubled [] ++ '"' :: '"' :: more) =
          closings ((n + 1) :: shorter) (n + 2) more := by
        rw [doubled_nil, List.nil_append, closings, if_neg hone]
      rw [hclose]
      exact exists_head_closings (k := n + 1) rfl (by omega) more
    · rw [doubled_nil, List.nil_append, closings_lone hquote, if_neg hone]
      exact ⟨n + 1, rfl, Nat.le_refl _⟩
  | cons c t ih =>
    by_cases hc : c = '"'
    · subst hc
      obtain ⟨m, hm, hle⟩ := ih (n := n + 2) (by omega) (by omega)
        (if n = 1 then shorter else (n + 1) :: shorter)
      refine ⟨m, ?_, ?_⟩
      · rwa [doubled_quote, List.cons_append, List.cons_append, closings]
      · simp only [doubled_quote, List.length_cons]
        omega
    · obtain ⟨m, hm, hle⟩ := ih (n := n + 1) (by omega) (by omega) shorter
      refine ⟨m, ?_, ?_⟩
      · rwa [doubled_cons hc, List.cons_append, closings_inner hc]
      · rw [doubled_cons hc, List.length_cons]
        omega

/-- No identifier at the start of a text is longer than the one that is read. -/
theorem exists_lengths_of_isPrefix (ht : WellFormed t) (hp : t <+: s) :
    ∃ n ∈ (lengths s).head?, t.length ≤ n := by
  obtain ⟨rest, rfl⟩ := hp
  cases ht with
  | @bare c u hc hu =>
    rw [List.cons_append, lengths, if_neg (startsBare_ne_quote hc), if_pos hc,
      List.takeWhile_append_of_pos hu]
    refine ⟨_, rfl, ?_⟩
    rw [List.length_cons, List.length_append]
    omega
  | @quoted u hu =>
    obtain ⟨m, hm, hle⟩ := exists_head_closings_doubled (n := 1) (by decide) (fun _ => hu) [] rest
    refine ⟨m, ?_, ?_⟩
    · rwa [List.cons_append, List.append_assoc, List.singleton_append, lengths, if_pos rfl]
    · rw [List.length_cons, List.length_append, List.length_singleton]
      omega

/-- The longest identifier is read, and nothing else. -/
theorem mem_identifier_iff_isLongest :
    (t, rest) ∈ identifier s ↔ s = t ++ rest ∧ IsLongest t s := by
  have hlongest : ∀ t rest, (t, rest) ∈ identifier s → s = t ++ rest ∧ IsLongest t s := by
    intro t rest h
    obtain ⟨happend, ht⟩ := eq_append_of_mem_identifier h
    refine ⟨happend, ht, ⟨rest, happend.symm⟩, fun u hu hp => ?_⟩
    obtain ⟨n, hn, rfl, -⟩ := mem_identifier.mp h
    obtain ⟨m, hm, hle⟩ := exists_lengths_of_isPrefix hu hp
    obtain rfl := Option.some.inj (hn.symm.trans hm)
    rw [List.length_take]
    exact Nat.le_min.mpr ⟨hle, hp.length_le⟩
  refine ⟨hlongest t rest, fun ⟨happend, ht⟩ => ?_⟩
  obtain ⟨n, hn, -⟩ := exists_lengths_of_isPrefix ht.wellFormed ht.isPrefix
  have hmem : (s.take n, s.drop n) ∈ identifier s := mem_identifier.mpr ⟨n, hn, rfl, rfl⟩
  have heq : s.take n = t := (hlongest _ _ hmem).2.eq ht
  have hdrop : s.drop n = rest := by
    have hboth : t ++ s.drop n = t ++ rest := by rw [← happend, ← heq, List.take_append_drop]
    exact List.append_cancel_left hboth
  rwa [heq, hdrop] at hmem

theorem IsLongest.exists_identifier (h : IsLongest t s) : ∃ rest, identifier s = [(t, rest)] := by
  obtain ⟨rest, hrest⟩ := h.isPrefix
  have hmem : (t, rest) ∈ identifier s := mem_identifier_iff_isLongest.mpr ⟨hrest.symm, h⟩
  refine ⟨rest, ?_⟩
  rw [identifier, identifierBefore] at hmem ⊢
  cases hfind : (lengths s).find? fun n => true with
  | none => simp [hfind] at hmem
  | some n =>
    rw [hfind] at hmem
    simpa [eq_comm] using hmem

end Identifier

namespace Heading

variable {β : Type} {w v : String} {ws us : List String} {front gap m n s t u rest words : Text}

/-- Blanks, the words `ws` with blanks behind each, and the identifier `m`. -/
inductive Follows : List String → Text → Text → Prop
  | name {m gap s : Text} : IsGap gap → IsLongest m s → Follows [] m (gap ++ s)
  | word {w : String} {ws : List String} {m gap front s : Text} : IsGap gap →
      front.map capital = w.toList → Follows ws m s → Follows (w :: ws) m (gap ++ (front ++ s))

/-- The reading of an identifier behind words. -/
def behind : List String → Reading Text
  | [] => do blanks; identifier
  | w :: ws => do blanks; word w; behind ws

theorem follows_of_mem_behind (h : (m, rest) ∈ behind ws s) : Follows ws m s := by
  induction ws generalizing s with
  | nil =>
    obtain ⟨_, u, hblanks, hname⟩ := mem_bind.mp h
    obtain ⟨gap, rfl, hgap⟩ := exists_of_mem_blanks hblanks
    exact .name hgap (mem_identifier_iff_isLongest.mp hname).2
  | cons w ws ih =>
    obtain ⟨_, u, hblanks, hmem⟩ := mem_bind.mp h
    obtain ⟨_, v, hword, hbehind⟩ := mem_bind.mp hmem
    obtain ⟨gap, rfl, hgap⟩ := exists_of_mem_blanks hblanks
    obtain ⟨front, rfl, hfront⟩ := afterWord_eq_some_iff.mp (mem_word.mp hword)
    exact .word hgap hfront (ih hbehind)

theorem word_append (h : front.map capital = w.toList) (s : Text) :
    word w (front ++ s) = [((), s)] := by
  rw [word, afterWord_eq_some_iff.mpr ⟨front, rfl, h⟩]
  rfl

theorem head?_isBlank_word (hw : IsKeyword w) (h : front.map capital = w.toList) (s : Text) :
    (front ++ s).head?.any isBlank = false :=
  (Spells.single h).head?_isBlank hw.1 hw.isBlank s

theorem Follows.exists_behind (h : Follows ws m s) (hws : ∀ w ∈ ws, IsKeyword w) :
    ∃ rest, behind ws s = [(m, rest)] := by
  induction h with
  | @name m gap s hgap hm =>
    obtain ⟨rest, hread⟩ := hm.exists_identifier
    obtain ⟨u, rfl⟩ := hm.isPrefix
    refine ⟨rest, ?_⟩
    rw [behind, bind_apply, blanks_append hgap (head?_isBlank_append hm.wellFormed u),
      List.flatMap_singleton, hread]
  | @word w ws m gap front s hgap hfront _ ih =>
    obtain ⟨hw, hws⟩ := List.forall_mem_cons.mp hws
    obtain ⟨rest, hread⟩ := ih hws
    refine ⟨rest, ?_⟩
    rw [behind, bind_apply, blanks_append hgap (head?_isBlank_word hw hfront s),
      List.flatMap_singleton, bind_apply, word_append hfront, List.flatMap_singleton, hread]

theorem behind_eq_nil_iff (hws : ∀ w ∈ ws, IsKeyword w) :
    behind ws s = [] ↔ ∀ m, ¬ Follows ws m s := by
  constructor
  · intro hnil m h
    obtain ⟨rest, hread⟩ := h.exists_behind hws
    rw [hnil] at hread
    cases hread
  · intro h
    exact List.eq_nil_iff_forall_not_mem.mpr fun ⟨m, rest⟩ hmem => h m (follows_of_mem_behind hmem)

/-- Where one word follows, another does not. -/
theorem Follows.behind_eq_nil (h : Follows (w :: ws) m s) (hw : IsKeyword w) (hv : v.toList ≠ [])
    (hne : v.toList.head? ≠ w.toList.head?) (us : List String) : behind (v :: us) s = [] := by
  cases h with
  | @word _ _ _ gap front s hgap hfront _ =>
    rw [behind, bind_apply, blanks_append hgap (head?_isBlank_word hw hfront s),
      List.flatMap_singleton]
    exact bind_eq_nil (Reading.word_eq_nil hfront hw.1 hne hv s)

theorem behind_cons_apply (w : String) (ws : List String) (s : Text) :
    behind (w :: ws) s =
      ((do blanks; word w : Reading Unit) s).flatMap fun p => behind ws p.2 := by
  rw [behind, bind_apply, bind_apply, List.flatMap_assoc]
  rfl

/-- Blanks and a word are read in one way only. -/
theorem blanks_word_apply (w : String) (s : Text) :
    (do blanks; word w : Reading Unit) s = [] ∨
      ∃ u, (do blanks; word w : Reading Unit) s = [((), u)] := by
  rw [bind_apply]
  cases s with
  | nil => exact Or.inl rfl
  | cons c s =>
    rw [blanks]
    split_ifs
    · rw [List.flatMap_singleton, word]
      cases afterWord w.toList (trimStart s) with
      | none => exact Or.inl rfl
      | some u => exact Or.inr ⟨u, rfl⟩
    · exact Or.inl rfl

theorem optional_bind_apply (r : Reading Unit) (f : Reading β) (s : Text) :
    (do let _ ← optional r; f : Reading β) s = (r s).flatMap (fun p => f p.2) ++ f s := by
  have hoptional : (optional r : Reading (Option Unit)) s =
      (r s).flatMap (fun p => [(some p.1, p.2)]) ++ [(none, s)] := rfl
  rw [bind_apply, hoptional, List.flatMap_append, List.flatMap_assoc]
  simp

/-- The schema of an extension, as it is read behind the name. -/
def extensionSchema : Reading Text := do
  let _ ← optional (do blanks; word "WITH")
  let _ ← optional (do blanks; word "SCHEMA")
  blanks
  identifier

/-- There are four ways to read the schema, with both words, one of them or none. -/
theorem extensionSchema_apply (s : Text) : extensionSchema s =
    behind ["WITH", "SCHEMA"] s ++ behind ["WITH"] s ++ behind ["SCHEMA"] s ++ behind [] s := by
  have hinner (s : Text) : (do let _ ← optional (do blanks; word "SCHEMA"); behind [] : Reading Text) s =
      behind ["SCHEMA"] s ++ behind [] s := by
    rw [optional_bind_apply, behind_cons_apply]
  have houter : extensionSchema s = ((do blanks; word "WITH" : Reading Unit) s).flatMap
      (fun p => behind ["SCHEMA"] p.2 ++ behind [] p.2) ++ (behind ["SCHEMA"] s ++ behind [] s) := by
    rw [← hinner]
    simp only [← hinner]
    exact optional_bind_apply _ _ s
  rw [houter, behind_cons_apply "WITH" ["SCHEMA"], behind_cons_apply "WITH" []]
  obtain h | ⟨u, h⟩ := blanks_word_apply "WITH" s <;> rw [h] <;> simp

/-- The schema of an extension with `s` behind its name. -/
def schemaBehind (s : Text) : Text :=
  ((extensionSchema s).head?.map Prod.fst).getD QualifiedName.publicSchema

theorem schemaBehind_clause (h : Follows ["WITH", "SCHEMA"] m s ∨ Follows ["SCHEMA"] m s) :
    schemaBehind s = m := by
  rw [schemaBehind, extensionSchema_apply]
  obtain h | h := h
  · obtain ⟨rest, hread⟩ := h.exists_behind (by decide)
    rw [hread]
    rfl
  · obtain ⟨rest, hread⟩ := h.exists_behind (by decide)
    have hwith := h.behind_eq_nil (v := "WITH") (by decide) (by decide) (by decide)
    rw [hwith, hwith, hread]
    rfl

/-- Without a clause it is the identifier behind `WITH`, else the one behind the name, else
`public`. -/
theorem schemaBehind_of_not_clause
    (hno : ∀ m, ¬ Follows ["WITH", "SCHEMA"] m s ∧ ¬ Follows ["SCHEMA"] m s) :
    (∀ m, Follows ["WITH"] m s → schemaBehind s = m) ∧
      ((∀ m, ¬ Follows ["WITH"] m s) →
        (∀ m, Follows [] m s → schemaBehind s = m) ∧
        ((∀ m, ¬ Follows [] m s) → schemaBehind s = QualifiedName.publicSchema)) := by
  have hboth := (behind_eq_nil_iff (by decide)).mpr fun m => (hno m).1
  have hone := (behind_eq_nil_iff (by decide)).mpr fun m => (hno m).2
  rw [schemaBehind, extensionSchema_apply, hboth, hone, List.nil_append, List.append_nil]
  refine ⟨fun m h => ?_, fun hwith => ⟨fun m h => ?_, fun hnone => ?_⟩⟩
  · obtain ⟨rest, hread⟩ := h.exists_behind (by decide)
    rw [hread]
    rfl
  · obtain ⟨rest, hread⟩ := h.exists_behind (by decide)
    rw [(behind_eq_nil_iff (by decide)).mpr hwith, hread]
    rfl
  · rw [(behind_eq_nil_iff (by decide)).mpr hwith, (behind_eq_nil_iff (by decide)).mpr hnone]
    rfl

/-- The word `IF`, if it is the name, is not taken for the first of `IF NOT EXISTS`. -/
theorem bind_ifNotExists_eq_nil {f : Text → Reading β} (hn : WellFormed n) (hrest : Ends rest)
    (hif : n.map capital = "IF".toList → ∀ m, ¬ Follows ["NOT", "EXISTS"] m rest) {o : Unit}
    (h : (o, u) ∈ (do word "IF"; blanks; word "NOT"; blanks; word "EXISTS"; blanks : Reading Unit)
      (n ++ rest)) : (identifier >>= f) u = [] := by
  obtain ⟨_, u₁, hword, h⟩ := mem_bind.mp h
  obtain ⟨_, u₂, hblanks, h⟩ := mem_bind.mp h
  obtain ⟨_, u₃, hnot, h⟩ := mem_bind.mp h
  obtain ⟨_, u₄, hblanks', h⟩ := mem_bind.mp h
  obtain ⟨_, u₅, hexists, hlast⟩ := mem_bind.mp h
  obtain ⟨a, htext, ha⟩ := afterWord_eq_some_iff.mp (mem_word.mp hword)
  obtain ⟨c, more, hu₁, hc, -⟩ := mem_blanks.mp hblanks
  have hkeyword : IsKeyword "IF" := by decide
  obtain rfl := hkeyword.eq_of_append hn hrest (hu₁ ▸ htext) ha hc
  obtain rfl := List.append_cancel_left htext
  refine List.flatMap_eq_nil_iff.mpr fun ⟨m, v⟩ hmem => (hif ha m ?_).elim
  have hlater : (m, v) ∈ behind ["EXISTS"] u₃ :=
    mem_bind.mpr ⟨_, _, hblanks', mem_bind.mpr ⟨_, _, hexists, mem_bind.mpr ⟨_, _, hlast, hmem⟩⟩⟩
  have hbehind : (m, v) ∈ behind ["NOT", "EXISTS"] rest :=
    mem_bind.mpr ⟨_, _, hblanks, mem_bind.mpr ⟨_, _, hnot, hlater⟩⟩
  exact follows_of_mem_behind hbehind

/-- The name, and the preferred one of the readings of the schema. -/
theorem prefers_extensionName (hn : WellFormed n) (hrest : Ends rest) : ∃ after, Prefers
    (do let name ← identifier
        let schema ← optional extensionSchema
        return { schema := schema.getD QualifiedName.publicSchema, name := some name : Heading })
    (n ++ rest)
    { schema := schemaBehind rest, name := some n } after := by
  rw [schemaBehind]
  have hname : Prefers identifier (n ++ rest) n rest :=
    congrArg List.head? (identifier_append hn hrest)
  cases hschema : (extensionSchema rest).head? with
  | none =>
    have hnone := prefers_none (List.head?_eq_none_iff.mp hschema)
    exact ⟨rest, hname.bind (hnone.bind prefers_pure)⟩
  | some p =>
    have hsome : Prefers extensionSchema rest p.1 p.2 := hschema
    exact ⟨p.2, hname.bind (hsome.optional.bind prefers_pure)⟩

theorem prefers_ofExtension (hws : ws ∈ [[], ["IF", "NOT", "EXISTS"]])
    (hwords : Spells ("CREATE" :: "EXTENSION" :: ws) words) (hgap : IsGap gap) (hn : WellFormed n)
    (hrest : Ends rest)
    (hif : ws = [] → n.map capital = "IF".toList → ∀ m, ¬ Follows ["NOT", "EXISTS"] m rest) :
    ∃ after, Prefers ofExtension (words ++ (gap ++ (n ++ rest)))
      { schema := schemaBehind rest, name := some n } after := by
  obtain ⟨after, hread⟩ := prefers_extensionName hn hrest
  have hstart := head?_isBlank_append hn rest
  obtain ⟨b, hb, hcreate⟩ := hwords.exists_bind (by decide)
  refine ⟨after, hcreate _ _ _ _ ?_⟩
  simp only [List.mem_cons, List.not_mem_nil, or_false] at hws
  obtain rfl | rfl := hws
  · refine hb.bind hgap hstart (prefers_optional_bind (fun o u hmem => ?_) hread)
    exact bind_ifNotExists_eq_nil hn hrest (hif rfl) hmem
  · obtain ⟨c, hc, hextension⟩ := hb.exists_bind (by decide)
    obtain ⟨d, hd, hwordIf⟩ := hc.exists_bind (β := Unit) (by decide)
    obtain ⟨e, he, hwordNot⟩ := hd.exists_bind (β := Unit) (by decide)
    have hlast : Prefers (do word "EXISTS"; blanks) (e ++ (gap ++ (n ++ rest))) () (n ++ rest) :=
      (prefers_word he.map_capital _).bind (prefers_blanks hgap hstart)
    have hwords := hwordIf _ _ _ _ (hwordNot _ _ _ _ hlast)
    exact hextension _ _ _ _ (hwords.optional.bind hread)

end Heading

namespace Classified

open Heading

variable {ws : List String} {words gap n rest : Text}

/-- An extension is recognised under its name. Its schema is the one of the clause, if there is one.
If there is none, it is the identifier behind `WITH`, or else the one behind the name: the first word
of the options. Only where no identifier follows is it `public`. -/
theorem ofStatement?_extension (hws : ws ∈ [[], ["IF", "NOT", "EXISTS"]])
    (hwords : Spells ("CREATE" :: "EXTENSION" :: ws) words) (hgap : IsGap gap) (hn : WellFormed n)
    (hrest : Ends rest)
    (hif : ws = [] → n.map capital = "IF".toList → ∀ m, ¬ Follows ["NOT", "EXISTS"] m rest)
    (hfirst : Kind.extension.IsFirst (words ++ (gap ++ (n ++ rest)))) :
    ∃ schema, ofStatement? (words ++ (gap ++ (n ++ rest))) = some
        (whole .extension { schema := schema, name := some n } (words ++ (gap ++ (n ++ rest)))) ∧
      (∀ m, Follows ["WITH", "SCHEMA"] m rest ∨ Follows ["SCHEMA"] m rest → schema = m) ∧
      ((∀ m, ¬ Follows ["WITH", "SCHEMA"] m rest ∧ ¬ Follows ["SCHEMA"] m rest) →
        (∀ m, Follows ["WITH"] m rest → schema = m) ∧
        ((∀ m, ¬ Follows ["WITH"] m rest) →
          (∀ m, Follows [] m rest → schema = m) ∧
          ((∀ m, ¬ Follows [] m rest) → schema = QualifiedName.publicSchema))) := by
  obtain ⟨after, hread⟩ := prefers_ofExtension hws hwords hgap hn hrest hif
  exact ⟨schemaBehind rest, ofStatement?_of_prefers hread hfirst, fun m => schemaBehind_clause,
    schemaBehind_of_not_clause⟩

theorem ofStatement?_extension_quoted_schema :
    let space := " ".toList
    let words := "Create extension".toList
    let name := "\"h-store\"".toList
    let rest := "\nwith Schema \"Ext \"\"1\" VERSION '1.4' CASCADE;".toList
    let longer := "Create extension IF not EXISTS".toList
    let s := longer ++ (space ++ (name ++ rest))
    let t := words ++ (space ++ ("If".toList ++ ";".toList))
    Spells ["CREATE", "EXTENSION", "IF", "NOT", "EXISTS"] longer ∧
      WellFormed name ∧ Ends rest ∧ Kind.extension.IsFirst s ∧
      Follows ["WITH", "SCHEMA"] "\"Ext \"\"1\"".toList rest ∧
      ofStatement? s = some
        (whole .extension { schema := "\"Ext \"\"1\"".toList, name := some name } s) ∧
    Spells ["CREATE", "EXTENSION"] words ∧ WellFormed "If".toList ∧ Ends ";".toList ∧
      Kind.extension.IsFirst t ∧ (∀ m, ¬ Follows ["NOT", "EXISTS"] m ";".toList) ∧
      (∀ ws ∈ [["WITH", "SCHEMA"], ["SCHEMA"], ["WITH"], []], ∀ m, ¬ Follows ws m ";".toList) ∧
      ofStatement? t = some
        (whole .extension { schema := "public".toList, name := some "If".toList } t) := by
  intro space words name rest longer s t
  have hspace : IsGap space := ⟨by decide, List.all_eq_true.mp (by decide)⟩
  have hcreate : "Create".toList.map capital = "CREATE".toList := by decide
  have hextension : "extension".toList.map capital = "EXTENSION".toList := by decide
  have hif : "IF".toList.map capital = "IF".toList := by decide
  have hnot : "not".toList.map capital = "NOT".toList := by decide
  have hexists : "EXISTS".toList.map capital = "EXISTS".toList := by decide
  have hshort : Spells ["CREATE", "EXTENSION"] words :=
    Spells.cons hcreate hspace (Spells.single hextension)
  have hlong : Spells ["CREATE", "EXTENSION", "IF", "NOT", "EXISTS"] longer :=
    Spells.cons hcreate hspace <| .cons hextension hspace <| .cons hif hspace <|
      .cons hnot hspace <| .single hexists
  have hname : WellFormed name := .quoted (s := "h-store".toList) (by decide)
  have hbare : WellFormed "If".toList := .bare (by decide) (List.all_eq_true.mp (by decide))
  have hrest : Ends rest := by
    rintro c ⟨⟩
    decide
  have hend : Ends ";".toList := by
    rintro c ⟨⟩
    decide
  have hfirst : Kind.extension.IsFirst s ∧ Kind.extension.IsFirst t := by
    rw [Kind.IsFirst, Kind.IsFirst]
    decide +kernel
  have hclause : Follows ["WITH", "SCHEMA"] "\"Ext \"\"1\"".toList rest := by
    have hmem : ("\"Ext \"\"1\"".toList, " VERSION '1.4' CASCADE;".toList) ∈
        behind ["WITH", "SCHEMA"] rest := by decide +kernel
    exact follows_of_mem_behind hmem
  have hnone : ∀ ws ∈ [["NOT", "EXISTS"], ["WITH", "SCHEMA"], ["SCHEMA"], ["WITH"], []],
      ∀ m, ¬ Follows ws m ";".toList := by
    intro ws hws
    have hkeywords : ∀ ws ∈ [["NOT", "EXISTS"], ["WITH", "SCHEMA"], ["SCHEMA"], ["WITH"], []],
        (∀ w ∈ ws, IsKeyword w) ∧ behind ws ";".toList = [] := by decide +kernel
    obtain ⟨hkeyword, hnil⟩ := hkeywords ws hws
    exact (behind_eq_nil_iff hkeyword).mp hnil
  obtain ⟨schema, hs, hgiven, -⟩ := ofStatement?_extension (by decide) hlong hspace hname hrest
    (fun hempty => (List.cons_ne_nil _ _ hempty).elim) hfirst.1
  obtain rfl := hgiven _ (Or.inl hclause)
  obtain ⟨schema, ht, -, hmissing⟩ := ofStatement?_extension (by decide) hshort hspace hbare hend
    (fun _ _ => hnone _ (by decide)) hfirst.2
  obtain ⟨-, hother⟩ := hmissing fun m => ⟨hnone _ (by decide) m, hnone _ (by decide) m⟩
  obtain rfl := (hother (hnone _ (by decide))).2 (hnone _ (by decide))
  exact ⟨hlong, hname, hrest, hfirst.1, hclause, hs, hshort, hbare, hend, hfirst.2,
    hnone _ (by decide), fun ws hws => hnone ws (List.mem_cons_of_mem _ hws), ht⟩

/-- A clause is missing here, and the first word of the options is taken for the schema. -/
theorem option_is_taken_for_schema :
    let rest := " VERSION '3.0';".toList
    let s := "CREATE EXTENSION postgis".toList ++ rest
    (∀ m, ¬ Follows ["WITH", "SCHEMA"] m rest ∧ ¬ Follows ["SCHEMA"] m rest) ∧
      Kind.extension.IsFirst s ∧ QualifiedName.publicSchema = "public".toList ∧
      ofStatement? s = some
        (whole .extension { schema := "VERSION".toList, name := some "postgis".toList } s) := by
  intro rest s
  have hboth : behind ["WITH", "SCHEMA"] rest = [] ∧ behind ["SCHEMA"] rest = [] := by
    decide +kernel
  have hwith := (behind_eq_nil_iff (by decide)).mp hboth.1
  have hschema := (behind_eq_nil_iff (by decide)).mp hboth.2
  refine ⟨fun m => ⟨hwith m, hschema m⟩, ?_, rfl, by decide +kernel⟩
  rw [Kind.IsFirst]
  decide +kernel

end Classified
end SchemaDump
