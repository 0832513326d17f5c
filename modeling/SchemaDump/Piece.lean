import SchemaDump.Text

/-! Texts cut into characters and dollar quotations. -/
namespace SchemaDump

/-- What the scanner takes in one step: a character, or a text that begins with a dollar sign and
whose characters mean nothing to it. -/
inductive Piece where
  | plain (c : Char)
  | dollar (t : Text)
deriving DecidableEq, Repr

namespace Piece

def text : Piece → Text
  | plain c => [c]
  | dollar t => t

def startsTag (c : Char) : Bool := c.isAlpha || c = '_'

def continuesTag (c : Char) : Bool := c.isAlphanum || c = '_'

/-- The tag that a dollar sign before `s` opens: two dollar signs, or a name between them. -/
def tag? (s : Text) : Option Text :=
  match s with
  | '$' :: _ => some ['$', '$']
  | c :: t =>
    if startsTag c then
      match t.dropWhile continuesTag with
      | '$' :: _ => some ('$' :: c :: t.takeWhile continuesTag ++ ['$'])
      | _ => none
    else none
  | [] => none

/-- How much of `'$' :: s` is one piece: up to the tag's next occurrence if there is one, else the
tag, and without a tag the dollar sign alone. -/
def dollarLength (s : Text) : Nat :=
  match tag? s with
  | none => 1
  | some tag => (Text.endOfFirst tag tag.length (s.drop (tag.length - 1))).getD tag.length

/-- The first piece of `c :: s`. -/
def first (c : Char) (s : Text) : Piece :=
  if c = '$' then dollar ('$' :: s.take (dollarLength s - 1)) else plain c

/-- What the first piece of `c :: s` leaves. -/
def afterOne (c : Char) (s : Text) : Text :=
  if c = '$' then s.drop (dollarLength s - 1) else s

theorem length_afterOne_le (c : Char) (s : Text) : (afterOne c s).length ≤ s.length := by
  unfold afterOne
  split <;> simp

/-- Reads pieces after those in `read`, which stand in reverse order. -/
def readOnto (read : List Piece) : Text → List Piece
  | [] => read.reverse
  | c :: s => readOnto (first c s :: read) (afterOne c s)
termination_by s => s.length
decreasing_by exact Nat.lt_succ_of_le (length_afterOne_le c s)

def ofText (s : Text) : List Piece := readOnto [] s

end Piece
end SchemaDump
