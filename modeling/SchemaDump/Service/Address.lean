import SchemaDump.Json.Reader

/-! Addresses of hosts in numbers. -/
namespace SchemaDump.Service.Address

def isHex (c : Char) : Bool := (Json.hexDigit? c).isSome

/-- A decimal number up to 255 without zeros before it. -/
def isOctet (s : Text) : Bool :=
  !s.isEmpty && s.all Char.isDigit && (s = ['0'] || s.head? ≠ some '0') && s.length ≤ 3 &&
    s.foldl (fun n c => 10 * n + (c.toNat - '0'.toNat)) 0 ≤ 255

/-- Four octets with points between them. -/
def isVersion4 (s : Text) : Bool :=
  let octets := s.splitOn '.'
  octets.length = 4 && octets.all isOctet

/-- Up to four hexadecimal digits. -/
def isGroup (s : Text) : Bool := !s.isEmpty && s.length ≤ 4 && s.all isHex

/-- How many groups stand in a text with colons between them. An address of version 4 at the end
counts as two, if `mayEndInOctets`. -/
def groups? (mayEndInOctets : Bool) (s : Text) : Option Nat :=
  let parts := s.splitOn ':'
  if s.isEmpty then some 0
  else if parts.all isGroup then some parts.length
  else if mayEndInOctets && parts.dropLast.all isGroup && isVersion4 (parts.getLastD []) then
    some (parts.length + 1)
  else none

/-- Eight groups. Two colons in a row stand for one or more of them, once. -/
def isVersion6 (s : Text) : Bool :=
  match Text.endOfFirst [':', ':'] 0 s with
  | none => groups? true s = some 8
  | some n =>
    match groups? false (s.take (n - 2)), groups? true (s.drop n) with
    | some front, some back => front + back < 8
    | _, _ => false

/-- An address of version 6 with the zone after it, if there is one. -/
def isZoned (s : Text) : Bool :=
  match s.splitOn '%' with
  | [address] => isVersion6 address
  | [address, zone] => isVersion6 address && !zone.isEmpty
  | _ => false

/-- The letter v, a hexadecimal number, a point, and more. -/
def isFuture (s : Text) : Bool :=
  match s with
  | 'v' :: t => !(t.takeWhile isHex).isEmpty && (match t.dropWhile isHex with
    | '.' :: _ :: _ => true
    | _ => false)
  | _ => false

end SchemaDump.Service.Address
