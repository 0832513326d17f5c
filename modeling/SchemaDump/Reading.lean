import SchemaDump.Text

/-! Readings of the start of a text, the preferred one first. -/
namespace SchemaDump

/-- Every way to read a value off the start of a text, each with the text it leaves. -/
def Reading (α : Type) : Type := Text → List (α × Text)

namespace Reading

variable {α : Type}

instance : Monad Reading where
  pure a := fun s => [(a, s)]
  bind r f := fun s => (r s).flatMap fun (a, rest) => f a rest

/-- `r` is preferred to `t`, which is read instead if what follows `r` fails. -/
instance : Alternative Reading where
  failure := fun _ => []
  orElse r t := fun s => r s ++ t () s

/-- The keyword `w`, given in capitals. -/
def word (w : String) : Reading Unit := fun s =>
  ((Text.afterWord w.toList s).map ((), ·)).toList

def char (c : Char) : Reading Unit
  | [] => []
  | x :: s => if x = c then [((), s)] else []

/-- All blanks at the start, at least one. -/
def blanks : Reading Unit
  | [] => []
  | c :: s => if Text.isBlank c then [((), Text.trimStart s)] else []

/-- All blanks at the start, if any. -/
def gap : Reading Unit := fun s => [((), Text.trimStart s)]

/-- Nothing, where the rest passes `p`. -/
def ahead (p : Text → Bool) : Reading Unit := fun s => if p s then [((), s)] else []

/-- Where a reading succeeds in a text: its value, the text from its first character on, and the
text after its last. -/
structure Found (α : Type) where
  value : α
  here : Text
  rest : Text

/-- The preferred reading at the first place that has one. -/
def search (r : Reading α) : Text → Option (Found α)
  | [] => (r []).head?.map fun (a, rest) => ⟨a, [], rest⟩
  | c :: s =>
    match r (c :: s) with
    | (a, rest) :: _ => some ⟨a, c :: s, rest⟩
    | [] => search r s

end Reading
end SchemaDump
