import SchemaDump.Encoding.Fault

/-! UTF-16 and UTF-32, of either byte order. -/
namespace SchemaDump

inductive ByteOrder where
  | little | big
deriving DecidableEq, Repr

namespace ByteOrder

/-- The number of two bytes. -/
def join : ByteOrder → UInt8 → UInt8 → Nat
  | little, a, b => a.toNat + 0x100 * b.toNat
  | big, a, b => 0x100 * a.toNat + b.toNat

def split : ByteOrder → Nat → Bytes
  | little, n => [UInt8.ofNat n, UInt8.ofNat (n / 0x100)]
  | big, n => [UInt8.ofNat (n / 0x100), UInt8.ofNat n]

def codec : ByteOrder → String
  | little => "utf-16-le"
  | big => "utf-16-be"

end ByteOrder

namespace Utf16

/-- The units of a character: one, or a pair of surrogates. -/
def units (c : Char) : List Nat :=
  let n := c.toNat
  if n < 0x10000 then [n] else [0xD800 + (n - 0x10000) / 0x400, 0xDC00 + (n - 0x10000) % 0x400]

def encode (order : ByteOrder) (s : Text) : Bytes :=
  s.flatMap fun c => (units c).flatMap order.split

def isHigh (n : Nat) : Bool := 0xD800 ≤ n && n < 0xDC00

def isLow (n : Nat) : Bool := 0xDC00 ≤ n && n < 0xE000

def joined (high low : Nat) : Char :=
  Char.ofNat (0x10000 + (high - 0xD800) * 0x400 + (low - 0xDC00))

/-- Decodes after the characters in `read`, which are reversed, and after `start` bytes. -/
def decodeOnto (order : ByteOrder) (read : Text) (start : Nat) : Bytes → Except DecodeFault Text
  | [] => .ok read.reverse
  | [a] => .error (.malformed order.codec a start 1 .truncated)
  | a :: b :: s =>
    let n := order.join a b
    if isLow n then .error (.malformed order.codec a start 2 .loneLowSurrogate)
    else if isHigh n then
      match s with
      | c :: d :: t =>
        if isLow (order.join c d) then
          decodeOnto order (joined n (order.join c d) :: read) (start + 4) t
        else .error (.malformed order.codec a start 2 .loneHighSurrogate)
      | rest => .error (.malformed order.codec a start (2 + rest.length) .unexpectedEnd)
    else decodeOnto order (Char.ofNat n :: read) (start + 2) s

def decode (order : ByteOrder) (s : Bytes) : Except DecodeFault Text := decodeOnto order [] 0 s

def noMark : DecodeFault := .failed "UTF-16 stream does not start with BOM"

/-- Text whose byte order a mark tells. Without the mark it is no text of this form, and if it is
none in little-endian order either, that is the first fault. -/
def decodeMarked (s : Bytes) : Except DecodeFault Text :=
  match s with
  | 0xFF :: 0xFE :: t => decodeOnto .little [] 2 t
  | 0xFE :: 0xFF :: t => decodeOnto .big [] 2 t
  | _ =>
    match decode .little s with
    | .ok text => if s.isEmpty then .ok text else .error noMark
    | .error fault => .error fault

def mark : Bytes := [0xFF, 0xFE]

end Utf16
end SchemaDump
