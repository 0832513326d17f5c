import SchemaDump.Number.Binary64
import SchemaDump.Text

/-! Amounts: whole numbers of any size, and binary64 numbers. -/
namespace SchemaDump

/-- An amount as it was given. -/
inductive Amount where
  | whole (n : Int)
  | binary (x : Binary64)
deriving DecidableEq, Repr

/-- Why an amount cannot be shown. -/
inductive AmountError where
  | quotientTooLarge
  | tooLarge
  | notANumber
deriving DecidableEq, Repr

namespace AmountError

def message : AmountError → String
  | quotientTooLarge => "integer division result too large for a float"
  | tooLarge => "int too large to convert to float"
  | notANumber => "cannot convert float NaN to integer"

end AmountError

namespace Amount

/-- Whether the amount is below `n`. What is not a number is neither below nor above. -/
def below (n : Nat) : Amount → Bool
  | whole k => k < n
  | binary (.finite negative q) => (if negative then -q else q) < n
  | binary (.infinite negative) => negative
  | binary .nan => false

/-- Whether the amount is `n` or more. -/
def atLeast (n : Nat) : Amount → Bool
  | whole k => (n : Int) ≤ k
  | binary (.finite negative q) => (n : Rat) ≤ if negative then -q else q
  | binary (.infinite negative) => !negative
  | binary .nan => false

/-- The amount as a binary64 number. -/
def toBinary : Amount → Except AmountError Binary64
  | whole k =>
    match Binary64.nearest? k.natAbs with
    | some q => .ok (.finite (k < 0) q)
    | none => .error .tooLarge
  | binary x => .ok x

/-- The quotient by `n`, which is positive, rounded once. -/
def divide (n : Nat) : Amount → Except AmountError Binary64
  | whole k =>
    match Binary64.nearest? ((k.natAbs : Rat) / n) with
    | some q => .ok (.finite (k < 0) q)
    | none => .error .quotientTooLarge
  | binary (.finite negative q) => .ok (.ofMagnitude negative (q / n))
  | binary x => .ok x

end Amount

namespace Binary64

/-- `n` in units of the last of `places` decimal places, with a point. -/
def pointed (places n : Nat) : Text :=
  let digits := Nat.toDigits 10 n
  let padded := List.replicate (places + 1 - digits.length) '0' ++ digits
  if places = 0 then padded
  else padded.take (padded.length - places) ++ '.' :: padded.drop (padded.length - places)

/-- The number rounded to `places` decimal places, halves to even. -/
def fixed (places : Nat) : Binary64 → Text
  | finite negative q =>
    (if negative then ['-'] else []) ++ pointed places (roundHalfEven (q * 10 ^ places)).toNat
  | infinite negative => if negative then "-inf".toList else "inf".toList
  | nan => "nan".toList

end Binary64

namespace Amount

/-- The largest and the smallest power of ten that are worth computing: beyond them every number is
infinite, or nothing. -/
def exponentLimit : Int := 400

/-- A decimal number `m · 10 ^ e`. -/
def ofDecimal (negative : Bool) (m : Nat) (e : Int) : Binary64 :=
  if m = 0 then .finite negative 0
  else if exponentLimit < e then .infinite negative
  else if e + (Nat.toDigits 10 m).length < -exponentLimit then .finite negative 0
  else .ofMagnitude negative (m * (10 : Rat) ^ e)

def natOfDigits (digits : Text) : Nat :=
  digits.foldl (fun n c => 10 * n + (c.toNat - '0'.toNat)) 0

/-- An amount by its sign and its digits: whole if it has neither a point nor an exponent. -/
def ofDigits (negative : Bool) (s : Text) : Amount :=
  let digits := s.takeWhile Char.isDigit
  let afterDigits := s.dropWhile Char.isDigit
  let fraction := match afterDigits with
    | '.' :: t => t.takeWhile Char.isDigit
    | _ => []
  let exponent := (afterDigits.dropWhile fun c => c ≠ 'e' && c ≠ 'E').drop 1
  let magnitude : Int := natOfDigits (exponent.filter Char.isDigit)
  let e := if exponent.head? = some '-' then -magnitude else magnitude
  if afterDigits.isEmpty then
    whole (if negative then -(natOfDigits digits : Int) else natOfDigits digits)
  else binary (ofDecimal negative (natOfDigits (digits ++ fraction)) (e - fraction.length))

/-- An amount as it is written, in digits or by the name of a number that has none. -/
def ofText (s : Text) : Amount :=
  let negative := s.head? = some '-'
  let unsigned := if negative then s.drop 1 else s
  match String.ofList unsigned with
  | "Infinity" => binary (.infinite negative)
  | "NaN" => binary .nan
  | _ => ofDigits negative unsigned

end Amount
end SchemaDump
