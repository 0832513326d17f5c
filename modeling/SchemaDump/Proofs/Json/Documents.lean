import SchemaDump.Proofs.Json.Strings
import SchemaDump.Proofs.Number.Numerals

/-! Documents: what is read is what was written, whatever values stand in it, if its numbers are
natural and not too long. -/
namespace SchemaDump.Json

variable {n m : Nat} {s t name rest : Text} {v : Json} {vs : List Json}
  {fields : List (Text × Json)}

theorem length_lt_length_renderString (s : Text) : s.length < (renderString s).length := by
  have hflat := length_le_length_flatMap s
  simp only [renderString, List.length_append, List.length_cons, List.length_nil]
  omega

/-- What may follow a value. -/
def Closes (rest : Text) : Prop := ∀ c ∈ rest.head?, c = ',' ∨ c = ']' ∨ c = '}'

theorem closes_nil : Closes [] := by
  rintro c ⟨⟩

theorem closes_cons {c : Char} (h : c = ',' ∨ c = ']' ∨ c = '}') (s : Text) : Closes (c :: s) := by
  rintro _ ⟨⟩
  exact h

theorem Closes.isDigit_eq_false (h : Closes rest) : ∀ c ∈ rest.head?, c.isDigit = false := by
  intro c hc
  obtain rfl | rfl | rfl := h c hc <;> rfl

theorem Closes.fraction (h : Closes rest) : fraction rest = ([], rest) := by
  cases rest with
  | nil => rfl
  | cons c rest => obtain rfl | rfl | rfl := h c rfl <;> rfl

theorem Closes.exponent (h : Closes rest) : exponent rest = ([], rest) := by
  cases rest with
  | nil => rfl
  | cons c rest => obtain rfl | rfl | rfl := h c rfl <;> rfl

theorem Closes.takeWhile_append (h : Closes rest) (hs : ∀ c ∈ s, c.isDigit = true) :
    (s ++ rest).takeWhile Char.isDigit = s := by
  rw [List.takeWhile_append_of_pos hs]
  cases rest with
  | nil => simp
  | cons c rest => simp [h.isDigit_eq_false c rfl]

theorem unsigned?_toDigits (hn : (Nat.toDigits 10 n).length ≤ maxDigits) (hrest : Closes rest) :
    unsigned? (Nat.toDigits 10 n ++ rest) = some (Nat.toDigits 10 n, rest) := by
  obtain rfl | hpos := Nat.eq_zero_or_pos n
  · rw [Nat.toDigits_zero, List.singleton_append, unsigned?]
    simp [hrest.fraction, hrest.exponent, maxDigits]
  · have hdigits : ∀ c ∈ Nat.toDigits 10 n, c.isDigit = true :=
      fun c => Nat.isDigit_of_mem_toDigits (by decide) (by decide)
    have hzero : ∀ t, Nat.toDigits 10 n ++ rest ≠ '0' :: t := by
      intro t h
      have hhead := head?_toDigits_ne_zero hpos
      rw [← List.head?_append_of_ne_nil _ Nat.toDigits_ne_nil, h] at hhead
      exact hhead rfl
    rw [unsigned?, hrest.takeWhile_append hdigits]
    · simp [hrest.fraction, hrest.exponent, Nat.toDigits_ne_nil, Nat.not_lt.mpr hn]
    · exact hzero

/-- A word is not found where another character stands. -/
theorem after?_eq_none {w : String} {c : Char} (hne : w.toList ≠ []) (hc : w.toList.head? ≠ some c)
    (s : Text) : after? w (c :: s) = none := by
  rw [after?, if_neg]
  rw [List.isPrefixOf_iff_prefix]
  intro h
  obtain ⟨d, l, hl⟩ := List.exists_cons_of_ne_nil hne
  rw [hl] at h hc
  exact hc (congrArg some (List.cons_prefix_cons.mp h).1)

theorem ne_of_isDigit {c d : Char} (hd : d.isDigit = true) (hc : c.isDigit = false) : d ≠ c := by
  rintro rfl
  rw [hd] at hc
  cases hc

theorem value?_ofNat (hn : (Nat.toDigits 10 n).length ≤ maxDigits) (hrest : Closes rest) :
    value? (m + 1) ((ofNat n).render ++ rest) = some (ofNat n, rest) := by
  obtain ⟨d, ds, hds⟩ := List.exists_cons_of_ne_nil (Nat.toDigits_ne_nil (n := n) (b := 10))
  have hd : d.isDigit = true :=
    Nat.isDigit_of_mem_toDigits (by decide) (by decide) (hds ▸ List.mem_cons_self)
  have hword : ∀ w ∈ ["null", "true", "false", "NaN", "Infinity", "-Infinity"],
      after? w (d :: (ds ++ rest)) = none := by
    intro w hw
    have hstart : w.toList ≠ [] ∧ w.toList.head?.any Char.isDigit = false := by
      revert w
      decide
    refine after?_eq_none hstart.1 (fun h => ?_) _
    simp [h, hd] at hstart
  have hread := unsigned?_toDigits hn hrest
  rw [ofNat, render]
  rw [hds, List.cons_append] at hread ⊢
  have hstart : ∀ c ∈ ['"', '[', '{', '-'], ∀ t, d :: (ds ++ rest) ≠ c :: t := by
    intro c hc t h
    have hdigit : ['"', '[', '{', '-'].any Char.isDigit = false := by decide
    have hcd : c = d := (List.cons.inj h).1.symm
    exact List.any_eq_false.mp hdigit c hc (hcd ▸ hd)
  rw [value?, scalar?]
  · simp [hword, hread]
  all_goals exact hstart _ (by simp)

/-- The text of `v` does not begin like the end of a list, and is read as `v` where it is closed,
in a text of fewer than `n` characters. -/
structure IsRead (v : Json) : Prop where
  start : ∃ c t, v.render = c :: t ∧ isSpace c = false ∧ c ≠ ']'
  value?_eq : ∀ n rest, v.render.length < n → Closes rest →
    value? n (v.render ++ rest) = some (v, rest)

/-- There is room for at least one character, since no text of a value is empty. -/
theorem isRead_of_succ (hstart : ∃ c t, v.render = c :: t ∧ isSpace c = false ∧ c ≠ ']')
    (hv : ∀ n rest, v.render.length ≤ n → Closes rest →
      value? (n + 1) (v.render ++ rest) = some (v, rest)) : IsRead v where
  start := hstart
  value?_eq := by
    intro n rest hn hrest
    obtain ⟨n, rfl⟩ : ∃ m, n = m + 1 := ⟨n - 1, by omega⟩
    exact hv n rest (Nat.le_of_lt_succ hn) hrest

theorem isRead_null : IsRead null := by
  refine isRead_of_succ ⟨'n', "ull".toList, ?_, rfl, by decide⟩ fun n rest _ _ => ?_
  · rw [render]
    rfl
  · rw [render]
    rfl

theorem isRead_bool (b : Bool) : IsRead (bool b) := by
  refine isRead_of_succ ?_ fun n rest _ _ => ?_
  · rw [render]
    cases b with
    | false => exact ⟨'f', "alse".toList, rfl, rfl, by decide⟩
    | true => exact ⟨'t', "rue".toList, rfl, rfl, by decide⟩
  · rw [render]
    cases b <;> rfl

theorem isRead_string (s : Text) : IsRead (string s) := by
  refine isRead_of_succ ⟨'"', s.flatMap renderChar ++ ['"'], ?_, rfl, by decide⟩ ?_
  · rw [render]
    rfl
  · intro n rest hn _
    rw [render] at hn ⊢
    exact value?_string (Nat.lt_of_lt_of_le (length_lt_length_renderString s) hn) rest

theorem isRead_ofNat (hdigits : (Nat.toDigits 10 n).length ≤ maxDigits) : IsRead (ofNat n) := by
  obtain ⟨c, t, ht⟩ := List.exists_cons_of_ne_nil (Nat.toDigits_ne_nil (n := n) (b := 10))
  have hc : c.isDigit = true :=
    Nat.isDigit_of_mem_toDigits (by decide) (by decide) (ht ▸ List.mem_cons_self)
  have hspace : isSpace c = false := by simp [isSpace, ne_of_isDigit hc]
  refine isRead_of_succ ⟨c, t, ?_, hspace, ne_of_isDigit hc rfl⟩ fun m rest _ hrest => ?_
  · rw [ofNat, render, ht]
  · exact value?_ofNat hdigits hrest

theorem IsRead.skip (h : IsRead v) (s : Text) : skip (v.render ++ s) = v.render ++ s := by
  obtain ⟨c, t, ht, hc, -⟩ := h.start
  rw [ht]
  exact skip_cons hc _

theorem renderItems_cons (v w : Json) (vs : List Json) : renderItems (v :: w :: vs) =
    v.render ++ ',' :: ' ' :: renderItems (w :: vs) := by
  rw [renderItems]
  exact List.cons_ne_nil w vs

/-- A list that is not empty begins like its first value. -/
theorem start_renderItems (hne : vs ≠ []) (hvs : ∀ v ∈ vs, IsRead v) :
    ∃ c t, renderItems vs = c :: t ∧ isSpace c = false ∧ c ≠ ']' := by
  match vs with
  | [] => exact (hne rfl).elim
  | [v] =>
    rw [renderItems]
    exact (hvs v List.mem_cons_self).start
  | v :: w :: vs =>
    obtain ⟨c, t, ht, hc⟩ := (hvs v List.mem_cons_self).start
    rw [renderItems_cons, ht]
    exact ⟨c, _, rfl, hc⟩

theorem skip_renderItems (hne : vs ≠ []) (hvs : ∀ v ∈ vs, IsRead v) (s : Text) :
    skip (renderItems vs ++ s) = renderItems vs ++ s := by
  obtain ⟨c, t, ht, hc, -⟩ := start_renderItems hne hvs
  rw [ht]
  exact skip_cons hc _

theorem items?_bracket (hv : IsRead v) (hn : v.render.length < n) :
    items? (n + 1) (v.render ++ ']' :: rest) = some ([v], rest) := by
  have hskip : skip (']' :: rest) = ']' :: rest := skip_cons rfl rest
  rw [items?, hv.value?_eq n _ hn (closes_cons (by simp) rest)]
  simp [hskip]

theorem items?_comma (hv : IsRead v) (hn : v.render.length < n)
    (ht : items? n (skip t) = some (vs, rest)) :
    items? (n + 1) (v.render ++ ',' :: t) = some (v :: vs, rest) := by
  have hskip : skip (',' :: t) = ',' :: t := skip_cons rfl t
  rw [items?, hv.value?_eq n _ hn (closes_cons (by simp) t)]
  simp [hskip, ht]

theorem items?_renderItems (hne : vs ≠ []) (hvs : ∀ v ∈ vs, IsRead v)
    (hn : (renderItems vs).length + 1 < n) :
    items? n (renderItems vs ++ ']' :: rest) = some (vs, rest) := by
  -- one step is spent on each value, and its text is at least one character long
  induction vs generalizing n with
  | nil => exact (hne rfl).elim
  | cons v vs ih =>
    obtain ⟨hv, hvs⟩ := List.forall_mem_cons.mp hvs
    obtain ⟨n, rfl⟩ : ∃ m, n = m + 1 := ⟨n - 1, by omega⟩
    cases vs with
    | nil =>
      rw [renderItems] at hn ⊢
      exact items?_bracket hv (by omega)
    | cons w vs =>
      rw [renderItems_cons, List.length_append, List.length_cons, List.length_cons] at hn
      have hrest := ih (List.cons_ne_nil w vs) hvs (by omega : _ < n)
      rw [renderItems_cons, List.append_assoc, List.cons_append, List.cons_append]
      refine items?_comma hv (by omega) ?_
      rw [skip_space, skip_renderItems (List.cons_ne_nil w vs) hvs, hrest]

theorem renderFields_cons (name : Text) (v : Json) (f : Text × Json) (fields : List (Text × Json)) :
    renderFields ((name, v) :: f :: fields) =
      renderString name ++ ':' :: ' ' :: v.render ++ ',' :: ' ' :: renderFields (f :: fields) := by
  rw [renderFields]
  exact List.cons_ne_nil f fields

theorem start_renderFields (hne : fields ≠ []) : ∃ t, renderFields fields = '"' :: t := by
  match fields with
  | [] => exact (hne rfl).elim
  | [(name, v)] => exact ⟨_, rfl⟩
  | (name, v) :: f :: fields => exact ⟨_, rfl⟩

theorem skip_renderFields (hne : fields ≠ []) (s : Text) :
    skip (renderFields fields ++ s) = renderFields fields ++ s := by
  obtain ⟨t, ht⟩ := start_renderFields hne
  rw [ht]
  exact skip_cons rfl _

/-- A field is read up to what follows its value. -/
theorem value?_of_field (hv : IsRead v) (hn : v.render.length < n) (hs : Closes s) :
    value? n (skip (' ' :: (v.render ++ s))) = some (v, s) := by
  rw [skip_space, hv.skip, hv.value?_eq n s hn hs]

theorem fields?_brace (hname : (renderString name).length < n) (hv : IsRead v)
    (hn : v.render.length < n) :
    fields? (n + 1) (renderString name ++ ':' :: ' ' :: (v.render ++ '}' :: rest)) =
      some ([(name, v)], rest) := by
  have hlength : name.length < n := Nat.lt_trans (length_lt_length_renderString name) hname
  have hcolon : skip (':' :: ' ' :: (v.render ++ '}' :: rest)) =
      ':' :: ' ' :: (v.render ++ '}' :: rest) := skip_cons rfl _
  have hvalue := value?_of_field hv hn (closes_cons (c := '}') (by simp) rest)
  have hskip : skip ('}' :: rest) = '}' :: rest := skip_cons rfl rest
  rw [renderString, List.append_assoc, List.cons_append, List.singleton_append, fields?,
    characters_flatMap [] hlength]
  simp [hcolon, hvalue, hskip]

theorem fields?_comma (hname : (renderString name).length < n) (hv : IsRead v)
    (hn : v.render.length < n) (ht : fields? n (skip t) = some (fields, rest)) :
    fields? (n + 1) (renderString name ++ ':' :: ' ' :: (v.render ++ ',' :: t)) =
      some ((name, v) :: fields, rest) := by
  have hlength : name.length < n := Nat.lt_trans (length_lt_length_renderString name) hname
  have hcolon : skip (':' :: ' ' :: (v.render ++ ',' :: t)) =
      ':' :: ' ' :: (v.render ++ ',' :: t) := skip_cons rfl _
  have hvalue := value?_of_field hv hn (closes_cons (c := ',') (by simp) t)
  have hskip : skip (',' :: t) = ',' :: t := skip_cons rfl t
  rw [renderString, List.append_assoc, List.cons_append, List.singleton_append, fields?,
    characters_flatMap [] hlength]
  simp [hcolon, hvalue, hskip, ht]

theorem fields?_renderFields (hne : fields ≠ []) (hfields : ∀ f ∈ fields, IsRead f.2)
    (hn : (renderFields fields).length + 1 < n) :
    fields? n (renderFields fields ++ '}' :: rest) = some (fields, rest) := by
  induction fields generalizing n with
  | nil => exact (hne rfl).elim
  | cons f fields ih =>
    obtain ⟨name, v⟩ := f
    obtain ⟨hv, hfields⟩ := List.forall_mem_cons.mp hfields
    obtain ⟨n, rfl⟩ : ∃ m, n = m + 1 := ⟨n - 1, by omega⟩
    cases fields with
    | nil =>
      rw [renderFields] at hn ⊢
      simp only [List.length_append, List.length_cons] at hn
      rw [List.append_assoc]
      exact fields?_brace (by omega) hv (by omega)
    | cons f fields =>
      rw [renderFields_cons] at hn ⊢
      simp only [List.length_append, List.length_cons] at hn
      have hrest := ih (List.cons_ne_nil f fields) hfields (by omega : _ < n)
      simp only [List.append_assoc, List.cons_append]
      refine fields?_comma (by omega) hv (by omega) ?_
      rw [skip_space, skip_renderFields (List.cons_ne_nil f fields), hrest]

theorem isRead_array (hvs : ∀ v ∈ vs, IsRead v) : IsRead (array vs) := by
  refine isRead_of_succ ⟨'[', renderItems vs ++ [']'], ?_, rfl, by decide⟩ ?_
  · rw [render]
    rfl
  · intro n rest hn _
    have htext : (array vs).render ++ rest = '[' :: (renderItems vs ++ ']' :: rest) := by
      simp [render]
    rw [htext, value?]
    by_cases hne : vs = []
    · subst hne
      rw [renderItems, List.nil_append, skip_cons rfl]
      rfl
    · have hlength : (renderItems vs).length + 1 + 1 ≤ n := by
        simpa [render] using hn
      have hitems : items? n (renderItems vs ++ ']' :: rest) = some (vs, rest) :=
        items?_renderItems hne hvs hlength
      obtain ⟨c, t, ht, -, hc⟩ := start_renderItems hne hvs
      rw [skip_renderItems hne hvs]
      rw [ht, List.cons_append] at hitems ⊢
      simp [hc, hitems]

theorem isRead_object (hfields : ∀ f ∈ fields, IsRead f.2) : IsRead (object fields) := by
  refine isRead_of_succ ⟨'{', renderFields fields ++ ['}'], ?_, rfl, by decide⟩ ?_
  · rw [render]
    rfl
  · intro n rest hn _
    have htext : (object fields).render ++ rest = '{' :: (renderFields fields ++ '}' :: rest) := by
      simp [render]
    rw [htext, value?]
    by_cases hne : fields = []
    · subst hne
      rw [renderFields, List.nil_append, skip_cons rfl]
      rfl
    · have hlength : (renderFields fields).length + 1 + 1 ≤ n := by
        simpa [render] using hn
      have hread : fields? n (renderFields fields ++ '}' :: rest) = some (fields, rest) :=
        fields?_renderFields hne hfields hlength
      obtain ⟨t, ht⟩ := start_renderFields hne
      rw [skip_renderFields hne]
      rw [ht, List.cons_append] at hread ⊢
      simp [hread]

/-- A value whose numbers are natural and have no more digits than can be read. -/
inductive Plain : Json → Prop
  | null : Plain null
  | bool (b : Bool) : Plain (bool b)
  | ofNat {n : Nat} : (Nat.toDigits 10 n).length ≤ maxDigits → Plain (ofNat n)
  | string (s : Text) : Plain (string s)
  | array {vs : List Json} : (∀ v ∈ vs, Plain v) → Plain (array vs)
  | object {fields : List (Text × Json)} : (∀ f ∈ fields, Plain f.2) → Plain (object fields)

theorem Plain.isRead (h : Plain v) : IsRead v := by
  induction h with
  | null => exact isRead_null
  | bool b => exact isRead_bool b
  | ofNat hdigits => exact isRead_ofNat hdigits
  | string s => exact isRead_string s
  | array _ ih => exact isRead_array ih
  | object _ ih => exact isRead_object ih

/-- A value is read as it was written. -/
theorem parse?_render (h : Plain v) : parse? v.render = some v := by
  have hskip := h.isRead.skip []
  have hread := h.isRead.value?_eq (v.render.length + 1) [] (Nat.lt_succ_self _) closes_nil
  rw [List.append_nil] at hskip hread
  rw [parse?, hskip, hread]
  rfl

/-- An object that is not empty is read from the bytes of its text. -/
theorem ofBytes?_render (hne : fields ≠ []) (h : Plain (object fields)) :
    ofBytes? (Utf8.encode (object fields).render) = some (object fields) := by
  obtain ⟨t, ht⟩ := start_renderFields hne
  have htext : text? (Utf8.encode (object fields).render) = some (object fields).render := by
    rw [render, ht]
    exact text?_encode (t ++ ['}'])
  rw [ofBytes?, htext, Option.bind_some, parse?_render h]

theorem ofBytes?_render_field (name s : Text) :
    ofBytes? (Utf8.encode (object [(name, string s)]).render) =
      some (object [(name, string s)]) := by
  refine ofBytes?_render (List.cons_ne_nil _ _) (.object fun f hf => ?_)
  obtain rfl := List.mem_singleton.mp hf
  exact .string s

end SchemaDump.Json
