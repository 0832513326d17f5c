import SchemaDump.Text
import Mathlib.Data.List.MinMax

/-! The indentation unit of a text. It is told by how often each indent occurs, so the order of the
lines does not matter, and each list that a choice is made from has something in it. -/
namespace SchemaDump.Indent

variable {s s' run run' line : Text} {front back : List Text} {rs rs' : List Text} {c : Char}
  {n d : Nat} {ns : List Nat}

/-- More than half of the runs are `run`. -/
def IsMajority (rs : List Text) (run : Text) : Prop := rs.length < 2 * rs.count run

theorem count_add_count_le (h : run ≠ run') (rs : List Text) :
    rs.count run + rs.count run' ≤ rs.length := by
  induction rs with
  | nil => simp
  | cons r rs ih =>
    rw [List.count_cons, List.count_cons, List.length_cons]
    by_cases hr : r = run
    · subst hr
      simp [h]
      omega
    · simp only [beq_iff_eq, if_neg hr]
      split <;> omega

theorem IsMajority.unique (h : IsMajority rs run) (h' : IsMajority rs run') : run = run' := by
  by_contra hne
  have hle := count_add_count_le hne rs
  unfold IsMajority at h h'
  omega

/-- The lengths of the runs that start with `c`. -/
def lengths (c : Char) (rs : List Text) : List Nat :=
  (rs.filter fun run => run.head? = some c).map List.length

/-- Of two indents that are as frequent, neither has the majority. -/
example : detect "x\n      a\n    b\n\tc\n\td".toList = "  ".toList := by decide

end SchemaDump.Indent
