import SchemaDump.Proofs.FrontEnds
import SchemaDump.Proofs.Objects

/-! The answers of the service. Which bodies are answered with a dump taken apart, and which are
refused; and whoever reads the text of an answer finds the whole dump in it. -/
namespace SchemaDump

variable {s : Text} {d : Dump}

theorem Kind.ofName?_name (k : Kind) : ofName? k.name.toList = some k := by
  cases k <;> decide

/-- Objects come from statements, of which none is empty. -/
theorem Dump.length_objects_le (s : Text) : (parse s).objects.length ≤ s.length := by
  have hone : ∀ n ∈ (statements s).map List.length, 1 ≤ n := by
    intro n hn
    obtain ⟨st, hst, rfl⟩ := List.mem_map.mp hn
    exact List.length_pos_iff.mpr (Statement.ne_nil_of_mem_scan hst)
  have hsum := List.length_le_sum_of_one_le _ hone
  rw [List.length_map, ← List.length_flatten, statements, Statement.flatten_split] at hsum
  rw [objects_eq_map, List.length_map, unattached_eq]
  exact (List.length_filterMap_le _ _).trans hsum

theorem Object.le_length_of_mem_counts {os : List Object} {p : Kind × Nat} (h : p ∈ counts os) :
    p.2 ≤ os.length := by
  obtain ⟨k, -, rfl⟩ := List.mem_map.mp (List.mem_filter.mp h).1
  exact List.countP_le_length

namespace Json

variable {α β : Type} {f : Json → Option α} {g : β → Json} {h : β → α}

/-- The values of an object's fields, if it has just the fields of these names. -/
def values? (names : List String) : Json → Option (List Json)
  | object fields =>
    if fields.map Prod.fst = names.map String.toList then some (fields.map Prod.snd) else none
  | _ => none

def string? : Json → Option Text
  | string s => some s
  | _ => none

def nat? : Json → Option Nat
  | number digits =>
    if digits.all Char.isDigit then some (Nat.ofDigitChars 10 digits 0) else none
  | _ => none

def list? (f : Json → Option α) : Json → Option (List α)
  | array vs => vs.mapM f
  | _ => none

def optional? (f : Json → Option α) : Json → Option (Option α)
  | null => some none
  | v => (f v).map some

theorem nat?_ofNat (n : Nat) : nat? (ofNat n) = some n := by
  have hdigits : (Nat.toDigits 10 n).all Char.isDigit = true :=
    List.all_eq_true.mpr fun c => Nat.isDigit_of_mem_toDigits (by decide) (by decide)
  rw [ofNat, nat?, if_pos hdigits, Nat.ofDigitChars_ten_toDigits]

theorem list?_array (hf : ∀ b, f (g b) = some (h b)) (bs : List β) :
    list? f (array (bs.map g)) = some (bs.map h) := Lists.mapM_map hf bs

theorem optional?_optional {f : Json → Option β} (hnull : ∀ b, g b ≠ null)
    (hf : ∀ b, f (g b) = some b) (o : Option β) : optional? f (optional g o) = some o := by
  cases o with
  | none => rfl
  | some b =>
    rw [optional, optional?, hf]
    · rfl
    · exact hnull b

/-- The last of the fields of a name counts. -/
theorem field?_eq_some_iff {fields : List (Text × Json)} {name : Text} {v : Json} :
    (object fields).field? name = some v ↔ ∃ front back,
      fields = front ++ (name, v) :: back ∧ ∀ f ∈ back, f.1 ≠ name := by
  simp only [field?, Option.map_eq_some_iff, List.find?_eq_some_iff_append, decide_eq_true_eq]
  constructor
  · rintro ⟨⟨_, _⟩, ⟨rfl, back, front, hfields, hback⟩, rfl⟩
    refine ⟨front.reverse, back.reverse, ?_, ?_⟩
    · simpa using congrArg List.reverse hfields
    · simpa using hback
  · rintro ⟨front, back, rfl, hback⟩
    exact ⟨(name, v), ⟨rfl, back.reverse, front.reverse, by simp, by simpa using hback⟩, rfl⟩

namespace Plain

theorem named {fields : List (String × Json)} (h : ∀ f ∈ fields, Plain f.2) :
    Plain (Service.named fields) := by
  refine .object fun f hf => ?_
  obtain ⟨f, hmem, rfl⟩ := List.mem_map.mp hf
  exact h f hmem

theorem optional (h : ∀ b, Plain (g b)) (o : Option β) : Plain (Json.optional g o) := by
  cases o with
  | none => exact .null
  | some b => exact h b

theorem texts (ts : List Text) : Plain (Service.texts ts) := by
  refine .array fun v hv => ?_
  obtain ⟨t, -, rfl⟩ := List.mem_map.mp hv
  exact .string t

theorem objectJson (o : Object) : Plain (Service.objectJson o) := by
  refine named fun f hf => ?_
  simp only [List.mem_cons, List.not_mem_nil, or_false] at hf
  obtain rfl | rfl | rfl | rfl | rfl | rfl | rfl | rfl | rfl := hf
  · exact .string _
  · exact .string _
  · exact .string _
  · exact optional .string _
  · exact .string _
  · exact .string _
  · exact optional texts _
  · exact optional texts _
  · exact optional texts _

theorem dumpJson (hd : d.objects.length < 10 ^ maxDigits) : Plain (Service.dumpJson d) := by
  refine named fun f hf => ?_
  simp only [List.mem_cons, List.not_mem_nil, or_false] at hf
  obtain rfl | rfl | rfl := hf
  · refine .array fun v hv => ?_
    obtain ⟨o, -, rfl⟩ := List.mem_map.mp hv
    exact objectJson o
  · exact .string _
  · refine named fun f hf => ?_
    obtain ⟨p, hp, rfl⟩ := List.mem_map.mp hf
    have hle := Object.le_length_of_mem_counts hp
    exact .ofNat ((Nat.length_toDigits_le_iff (by decide) (by decide)).mpr (by omega))

end Plain
end Json

namespace Service

/-- What an answer tells: objects, each with the path of its file, the text that belongs to none,
and how many objects there are of each kind. -/
structure Contents where
  objects : List (Object × Text)
  residual : Text
  counts : List (Kind × Nat)
deriving DecidableEq, Repr

namespace Contents

def ofDump (d : Dump) : Contents where
  objects := d.objects.map fun o => (o, ['/'].intercalate o.path)
  residual := d.residual
  counts := Object.counts d.objects

def object? (v : Json) : Option (Object × Text) := do
  let [kind, schema, name, qualifiedName, path, definition, sequences, constraints, indexes] ←
    v.values? ["kind", "schema", "name", "qualified_name", "path", "definition", "sequences",
      "constraints", "indexes"] | none
  let o : Object :=
    { kind := ← kind.string?.bind Kind.ofName?
      schema := ← schema.string?
      name := ← name.string?
      definition := ← definition.string?
      qualifiedName := ← qualifiedName.optional? Json.string?
      sequences := ← sequences.optional? (Json.list? Json.string?)
      constraints := ← constraints.optional? (Json.list? Json.string?)
      indexes := ← indexes.optional? (Json.list? Json.string?) }
  return (o, ← path.string?)

def count? (f : Text × Json) : Option (Kind × Nat) := do
  return (← Kind.ofName? f.1, ← f.2.nat?)

def counts? : Json → Option (List (Kind × Nat))
  | .object fields => fields.mapM count?
  | _ => none

/-- Reads an answer, which has all the fields and no others. -/
def ofJson? (v : Json) : Option Contents := do
  let [objects, residual, summary] ← v.values? ["objects", "residual", "summary"] | none
  return { objects := ← objects.list? object?
           residual := ← residual.string?
           counts := ← counts? summary }

theorem object?_objectJson (o : Object) :
    object? (objectJson o) = some (o, ['/'].intercalate o.path) := by
  have htexts (ts : List Text) : (texts ts).list? Json.string? = some ts := by
    have hlist := Json.list?_array (f := Json.string?) (g := .string) (h := id) (fun _ => rfl) ts
    rwa [List.map_id] at hlist
  have hname := Json.optional?_optional (f := Json.string?) (g := .string) (fun _ => by simp)
    (fun _ => rfl) o.qualifiedName
  have hoptional := Json.optional?_optional (f := Json.list? Json.string?) (g := texts)
    (fun _ => by simp [texts]) htexts
  have hvalues : (objectJson o).values? ["kind", "schema", "name", "qualified_name", "path",
      "definition", "sequences", "constraints", "indexes"] = some [.string o.kind.name.toList,
      .string o.schema, .string o.name, .optional .string o.qualifiedName,
      .string (['/'].intercalate o.path), .string o.definition, .optional texts o.sequences,
      .optional texts o.constraints, .optional texts o.indexes] := rfl
  simp [object?, hvalues, Kind.ofName?_name, hname, hoptional, Json.string?]

theorem counts?_named (counts : List (Kind × Nat)) :
    counts? (named (counts.map fun (k, n) => (k.name, Json.ofNat n))) = some counts := by
  have hcount (p : Kind × Nat) : count? (p.1.name.toList, Json.ofNat p.2) = some (id p) := by
    simp [count?, Kind.ofName?_name, Json.nat?_ofNat]
  have hall := Lists.mapM_map hcount counts
  rw [List.map_id] at hall
  rw [named, List.map_map]
  exact hall

theorem ofJson?_dumpJson (d : Dump) : ofJson? (dumpJson d) = some (ofDump d) := by
  have hobjects := Json.list?_array object?_objectJson d.objects
  have hcounts := counts?_named (Object.counts d.objects)
  have hvalues : (dumpJson d).values? ["objects", "residual", "summary"] = some
      [.array (d.objects.map objectJson), .string d.residual,
        named ((Object.counts d.objects).map fun (k, n) => (k.name, Json.ofNat n))] := rfl
  simp [ofJson?, hvalues, hobjects, hcounts, Json.string?, ofDump]

end Contents

/-- The body is an object whose last `sql` field is the text `s`, which is not blank. -/
def Carries (body : Bytes) (s : Text) : Prop := ∃ front back,
  Json.ofBytes? body = some (.object (front ++ ("sql".toList, .string s) :: back)) ∧
    (∀ f ∈ back, f.1 ≠ "sql".toList) ∧ ∃ c ∈ s, Text.isBlank c = false

variable {body : Bytes}

theorem dumpText_eq_ok_iff : dumpText body = .ok s ↔ Carries body s := by
  have hblank : Text.trim s ≠ [] ↔ ∃ c ∈ s, Text.isBlank c = false := by
    simp [Text.trim_eq_nil_iff]
  rw [dumpText]
  constructor
  · intro h
    split at h
    · cases h
    · cases h
    · next fields hbody =>
      split at h
      · next t ht =>
        obtain ⟨front, back, rfl, hback⟩ := Json.field?_eq_some_iff.mp ht
        split_ifs at h with hempty
        obtain rfl : t = s := Except.ok.inj h
        exact ⟨front, back, hbody, hback, hblank.mp (by simpa using hempty)⟩
      · cases h
    · cases h
  · rintro ⟨front, back, hbody, hback, hs⟩
    have hfield : (Json.object (front ++ ("sql".toList, .string s) :: back)).field? "sql".toList =
        some (.string s) := Json.field?_eq_some_iff.mpr ⟨front, back, rfl, hback⟩
    have hempty : ¬ (Text.trim s).isEmpty = true := by simpa using hblank.mpr hs
    simp only [hbody, hfield, if_neg hempty]

/-- Whatever framework serves the routes, the answer at either path is 200 if the body carries a
text, and else 400 with the reason as `error`. Who reads the answer to a text finds the objects of
the dump, with the paths of their files, the residual text and the counts, all as they are. A count
of more than `maxDigits` digits could not be read, but no text that fits into any memory has as many
objects. -/
theorem answer_tells {framework : Framework} (hserves : framework.Serves) {target : String}
    (h : target ∈ ["/", "/api/split"]) (body : Bytes) :
    let a := framework "POST" target body
    (a.status = 200 ↔ ∃ s, Carries body s) ∧
      ((¬ ∃ s, Carries body s) → ∃ text message, a = ⟨400, some text⟩ ∧
        Json.ofBytes? (Utf8.encode text) = some (.object [("error".toList, .string message)])) ∧
      ∀ s, Carries body s → ∃ text, a = ⟨200, some text⟩ ∧
        (s.length < 10 ^ Json.maxDigits →
          (Json.ofBytes? (Utf8.encode text)).bind Contents.ofJson? =
            some (Contents.ofDump (Dump.parse s))) ∧
        ((Contents.ofDump (Dump.parse s)).counts.map Prod.snd).sum =
          (Dump.parse s).objects.length := by
  dsimp only
  rw [hserves.post h, split]
  cases hdump : dumpText body with
  | ok s =>
    have hs := dumpText_eq_ok_iff.mp hdump
    refine ⟨iff_of_true rfl ⟨s, hs⟩, fun hnone => (hnone ⟨s, hs⟩).elim, fun t ht => ?_⟩
    obtain rfl : s = t := by
      have heq := dumpText_eq_ok_iff.mpr ht
      rw [hdump] at heq
      exact Except.ok.inj heq
    refine ⟨_, rfl, fun hlength => ?_, Object.sum_counts _⟩
    have hplain := Json.Plain.dumpJson ((Dump.length_objects_le s).trans_lt hlength)
    have hread : Json.ofBytes? (Utf8.encode (dumpJson (Dump.parse s)).render) =
        some (dumpJson (Dump.parse s)) := Json.ofBytes?_render (List.cons_ne_nil _ _) hplain
    rw [hread, Option.bind_some, Contents.ofJson?_dumpJson]
  | error refusal =>
    have hnone : ¬ ∃ s, Carries body s := by
      rintro ⟨s, hs⟩
      rw [dumpText_eq_ok_iff.mpr hs] at hdump
      cases hdump
    refine ⟨iff_of_false (by simp) hnone, fun _ => ?_, fun s hs => (hnone ⟨s, hs⟩).elim⟩
    exact ⟨_, _, rfl, Json.ofBytes?_render_field _ _⟩

/-- The field is given twice, and the name of the table is a pair of surrogates in the body. -/
theorem answer_tells_last_field :
    let s := "CREATE TABLE \"😀\" (a int);\nSELECT 'é';".toList
    let t := "\x7b\"sql\": [1], \"\": null, \"sql\": \"CREATE TABLE ".toList ++
      "\\\"\\ud83d\\uDE00\\\" (a int);\\nSELECT 'é';\"\x7d".toList
    let body := Utf8.encode t
    let o : Object :=
      { kind := .table
        schema := "public".toList
        name := "\"😀\"".toList
        definition := "CREATE TABLE \"😀\" (a int);".toList
        qualifiedName := some "public.\"😀\"".toList }
    client.Serves ∧ s.length < 10 ^ Json.maxDigits ∧ Carries body s ∧ ∃ text,
      client "POST" "/api/split" body = ⟨200, some text⟩ ∧
      (Json.ofBytes? (Utf8.encode text)).bind Contents.ofJson? = some
        { objects := [(o, "tables/public.\"😀\".sql".toList)]
          residual := "SELECT 'é';".toList
          counts := [(.table, 1)] } := by
  intro s t body o
  have hlength : s.length < 10 ^ Json.maxDigits :=
    Nat.lt_trans (by decide : s.length < Json.maxDigits) (Nat.lt_pow_self (by decide))
  have htext : Json.text? body = some t := Json.text?_encode _
  have hdump : dumpText body = .ok s := by
    rw [dumpText, Json.ofBytes?, htext]
    decide +kernel
  have hs : Carries body s := dumpText_eq_ok_iff.mp hdump
  have htarget : "/api/split" ∈ ["/", "/api/split"] := by decide
  obtain ⟨-, -, htells⟩ := answer_tells serves_client htarget body
  obtain ⟨text, htext, hread, -⟩ := htells s hs
  refine ⟨serves_client, hlength, hs, text, htext, (hread hlength).trans (congrArg some ?_)⟩
  decide +kernel

end Service
end SchemaDump
