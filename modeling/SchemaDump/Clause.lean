import SchemaDump.Heading

/-! Clauses that attachable statements add to a table definition. -/
namespace SchemaDump.Clause

open Reading

/-- `s` without a last semicolon that only blanks follow, and without the blanks before it. -/
def dropSemicolon (s : Text) : Text :=
  match (Text.trimEnd s).reverse with
  | ';' :: front => Text.trimEnd front.reverse
  | _ => s

/-- A run of blanks as it is kept: a single one as it is unless it is a line feed, else a space. -/
def squeezeRun : Text → Text
  | [c] => if c = '\n' then [' '] else [c]
  | _ => [' ']

/-- Every run of blanks squeezed. -/
def squeeze : Text → Text
  | [] => []
  | c :: s =>
    if Text.isBlank c then
      squeezeRun (c :: s.takeWhile Text.isBlank) ++ squeeze (s.dropWhile Text.isBlank)
    else c :: squeeze s
termination_by s => s.length
decreasing_by
  · exact Nat.lt_succ_of_le (List.dropWhile_sublist _).length_le
  · simp

/-- One parenthesis and its inner blanks: an opening one with blanks after it, or a closing one
with blanks before it. With what follows. -/
def padded? (s : Text) : Option (Text × Text) :=
  match s with
  | [] => none
  | c :: t =>
    if c = '(' then
      match t.takeWhile Text.isBlank with
      | [] => none
      | blanks => some (c :: blanks, t.dropWhile Text.isBlank)
    else if Text.isBlank c then
      match t.dropWhile Text.isBlank with
      | ')' :: rest => some (c :: t.takeWhile Text.isBlank ++ [')'], rest)
      | _ => none
    else none

theorem length_rest_of_padded? {s front rest : Text} (h : padded? s = some (front, rest)) :
    rest.length < s.length := by
  cases s with
  | nil => simp [padded?] at h
  | cons c t =>
    have := (List.dropWhile_sublist (l := t) Text.isBlank).length_le
    simp only [padded?] at h
    split at h
    · split at h
      · simp at h
      · simp only [Option.some.injEq, Prod.mk.injEq] at h
        simp only [← h.2, List.length_cons]
        omega
    · split at h
      · split at h
        · rename_i heq
          simp only [Option.some.injEq, Prod.mk.injEq] at h
          simp only [heq, List.length_cons, h.2] at this ⊢
          omega
        · simp at h
      · simp at h

/-- The padded parentheses at the start of a text that follow each other directly, and the rest. -/
def paddedRun (s : Text) : Text × Text :=
  match h : padded? s with
  | none => ([], s)
  | some (front, rest) =>
    have := length_rest_of_padded? h
    let (more, rest') := paddedRun rest
    (front ++ more, rest')
termination_by s.length

theorem length_paddedRun_le (s : Text) : (paddedRun s).2.length ≤ s.length := by
  induction s using paddedRun.induct with
  | case1 s _ => rw [paddedRun]; split <;> simp_all
  | case2 s front rest h hlt ih =>
    rw [paddedRun]
    split
    · simp
    · rename_i heq
      rw [h] at heq
      simp only [Option.some.injEq, Prod.mk.injEq] at heq
      simp only [← heq.2]
      omega

/-- Each run of padded parentheses trimmed. -/
def tighten (s : Text) : Text :=
  match h : padded? s with
  | some (front, rest) =>
    have := length_rest_of_padded? h
    have := length_paddedRun_le rest
    let run := paddedRun rest
    Text.trim (front ++ run.1) ++ tighten run.2
  | none =>
    match s with
    | [] => []
    | c :: t => c :: tighten t
termination_by s.length
decreasing_by
  · omega
  · simp

/-- The identity clause of a sequence statement, on one line: what follows its `ADD`. -/
def identity? (definition : Text) : Option Text :=
  (Heading.columnAddition.search definition).map fun found =>
    tighten (squeeze (dropSemicolon found.rest))

/-- What stands between blanks and the last semicolon. If it is nothing, the last of several blanks
is taken for it. -/
def body : Reading Text := fun s =>
  match s.takeWhile Text.isBlank, Text.splitLast ';' (s.dropWhile Text.isBlank) with
  | _ :: _, some (c :: text, rest) => [(c :: text, rest)]
  | _ :: b :: more, some ([], rest) => [([more.getLastD b], rest)]
  | _, _ => []

/-- The name and the body of an added constraint. -/
def addedConstraint : Reading (Text × Text) := do
  word "ADD"
  blanks
  word "CONSTRAINT"
  blanks
  let name ← identifier
  return (name, ← body)

/-- The clause of a constraint statement. -/
def constraint? (definition : Text) : Option Text :=
  (addedConstraint.search definition).map fun found =>
    "CONSTRAINT ".toList ++ found.value.1 ++ ' ' :: found.value.2

end SchemaDump.Clause
