import SchemaDump.Dump
import SchemaDump.Number.Amount

/-! Sizes, durations and counts as they are shown to a reader. -/
namespace SchemaDump.Report

open Binary64

/-- The units that sizes are shown in, each 1024 times the one before. -/
def units : List String := ["bytes", "kB", "MB", "GB"]

/-- An amount in the first unit of which it has fewer than 1024, or in the last. -/
def inUnits (size : Amount) : List String → Except AmountError Text
  | [] => .ok []
  | unit :: units =>
    if size.atLeast 1024 && !units.isEmpty then
      match size.divide 1024 with
      | .ok quotient => inUnits (.binary quotient) units
      | .error e => .error e
    else (size.toBinary).map fun x => x.fixed 2 ++ ' ' :: unit.toList

/-- A number of bytes. -/
def size (bytes : Amount) : Except AmountError Text := inUnits bytes units

/-- What is left of `q` after a multiple of 60. -/
def modSixty (q : Rat) : Rat := q - 60 * (q / 60).floor

/-- How many times 60 goes into `q`, by a difference and a quotient that are each rounded. -/
def sixties (q : Rat) : Int :=
  let multiple := (nearest? (q - modSixty q)).getD 0
  let quotient := (nearest? (multiple / 60)).getD 0
  if 1 < 2 * (quotient - quotient.floor) then quotient.floor + 1 else quotient.floor

/-- Minutes and seconds of a number of seconds, at least 60. -/
def minutes : Binary64 → Except AmountError Text
  | finite _ q =>
    .ok (Nat.toDigits 10 (sixties q).toNat ++ " min ".toList ++
      (finite false (modSixty q)).fixed 0 ++ " sec".toList)
  | infinite _ => .error .notANumber
  | nan => .error .notANumber

/-- A number of milliseconds: as such below a second, in seconds below a minute, else in minutes. -/
def duration (milliseconds : Amount) : Except AmountError Text :=
  if milliseconds.below 1000 then
    milliseconds.toBinary.map fun x => x.fixed 0 ++ " ms".toList
  else
    match milliseconds.divide 1000 with
    | .error e => .error e
    | .ok seconds =>
      if (Amount.binary seconds).below 60 then .ok (seconds.fixed 2 ++ " sec".toList)
      else minutes seconds

/-- The name of a kind with a capital, in the plural. -/
def plural (k : Kind) : String := k.name.capitalize ++ "s"

/-- How many objects there are of each kind. -/
def kinds (os : List Object) : List String :=
  (Object.counts os).map fun (k, n) => s!"{plural k}: {n}"

end SchemaDump.Report
