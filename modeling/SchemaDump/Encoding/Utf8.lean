import SchemaDump.Encoding.Fault

/-! UTF-8. -/
namespace SchemaDump.Utf8

def encode (s : Text) : Bytes := s.flatMap String.utf8EncodeChar

/-- What a first byte announces: its own bits of the code point, the number of continuation bytes,
and the range of the first of these. -/
structure Lead where
  bits : Nat
  count : Nat
  low : Nat
  high : Nat
deriving DecidableEq, Repr

/-- The ranges keep out overlong forms, surrogates, and numbers beyond Unicode. -/
def lead? (byte : UInt8) : Option Lead :=
  let n := byte.toNat
  if n < 0x80 then some ⟨n, 0, 0x80, 0xBF⟩
  else if n < 0xC2 then none
  else if n < 0xE0 then some ⟨n - 0xC0, 1, 0x80, 0xBF⟩
  else if n = 0xE0 then some ⟨0, 2, 0xA0, 0xBF⟩
  else if n = 0xED then some ⟨0xD, 2, 0x80, 0x9F⟩
  else if n < 0xF0 then some ⟨n - 0xE0, 2, 0x80, 0xBF⟩
  else if n = 0xF0 then some ⟨0, 3, 0x90, 0xBF⟩
  else if n < 0xF4 then some ⟨n - 0xF0, 3, 0x80, 0xBF⟩
  else if n = 0xF4 then some ⟨4, 3, 0x80, 0x8F⟩
  else none

/-- The code point of a sequence from its continuation bytes on, of which `count` are to come, or
the length up to the defect. -/
def continued (bits low high length : Nat) : Nat → Bytes → Except (Nat × Defect) Nat
  | 0, _ => .ok bits
  | _ + 1, [] => .error (length, .unexpectedEnd)
  | count + 1, b :: s =>
    if low ≤ b.toNat ∧ b.toNat ≤ high then
      continued (bits * 64 + (b.toNat - 0x80)) 0x80 0xBF (length + 1) count s
    else .error (length, .continuationByte)

/-- Decodes after the characters in `read`, which are reversed, and after `start` bytes. -/
def decodeOnto (read : Text) (start : Nat) : Bytes → Except DecodeFault Text
  | [] => .ok read.reverse
  | b :: s =>
    match lead? b with
    | none => .error (.malformed "utf-8" b start 1 .startByte)
    | some lead =>
      match continued lead.bits lead.low lead.high 1 lead.count s with
      | .ok n => decodeOnto (Char.ofNat n :: read) (start + 1 + lead.count) (s.drop lead.count)
      | .error (length, defect) => .error (.malformed "utf-8" b start length defect)
termination_by s => s.length
decreasing_by
  simp only [List.length_drop, List.length_cons]
  omega

def decode (s : Bytes) : Except DecodeFault Text := decodeOnto [] 0 s

/-- The bytes that may stand before a text to show that it is UTF-8. -/
def signature : Bytes := [0xEF, 0xBB, 0xBF]

end SchemaDump.Utf8
