/-! Numbers as binary64 holds them, by their exact values. -/
namespace SchemaDump

/-- The integer nearest to `q`, and of two the even one. -/
def roundHalfEven (q : Rat) : Int :=
  let remainder := 2 * (q - q.floor)
  if 1 < remainder ∨ (remainder = 1 ∧ q.floor % 2 = 1) then q.floor + 1 else q.floor

/-- The exponent of the largest power of two that is at most `q`, which is positive. -/
def floorLog2 (q : Rat) : Int :=
  let e : Int := (q.num.natAbs.log2 : Int) - (q.den.log2 : Int)
  if q < 2 ^ e then e - 1 else e

/-- A binary64 number. Its magnitude is not negative; zero has a sign. -/
inductive Binary64 where
  | finite (negative : Bool) (magnitude : Rat)
  | infinite (negative : Bool)
  | nan
deriving DecidableEq, Repr

namespace Binary64

/-- The distance of the binary64 numbers around `q`, which is positive: 53 binary digits, and no
place below the 1074th after the point. -/
def spacing (q : Rat) : Rat := 2 ^ max (floorLog2 q - 52) (-1074)

/-- The binary64 number nearest to `q`, which is not negative, and of two the even one; there is
none from half a place above the largest on. -/
def nearest? (q : Rat) : Option Rat :=
  if q = 0 then some 0
  else
    let rounded := roundHalfEven (q / spacing q) * spacing q
    if rounded < 2 ^ (1024 : Int) then some rounded else none

/-- `nearest?`, with infinity where it has none. -/
def ofMagnitude (negative : Bool) (q : Rat) : Binary64 :=
  match nearest? q with
  | some m => finite negative m
  | none => infinite negative

end Binary64
end SchemaDump
