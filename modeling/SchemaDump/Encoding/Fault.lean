import SchemaDump.Text.Printable

/-! What can be wrong with encoded text, or with text to encode. -/
namespace SchemaDump

abbrev Bytes := List UInt8

/-- What is wrong with bytes that encode no text, or with characters that are not encoded. -/
inductive Defect where
  | startByte
  | continuationByte
  | unexpectedEnd
  | truncated
  | loneLowSurrogate
  | loneHighSurrogate
  | outOfRange (limit : Nat)
  | other (reason : String)
deriving DecidableEq, Repr

namespace Defect

def message : Defect → String
  | startByte => "invalid start byte"
  | continuationByte => "invalid continuation byte"
  | unexpectedEnd => "unexpected end of data"
  | truncated => "truncated data"
  | loneLowSurrogate => "illegal encoding"
  | loneHighSurrogate => "illegal UTF-16 surrogate"
  | outOfRange limit => s!"ordinal not in range({limit})"
  | other reason => reason

end Defect

/-- Why bytes cannot be read as text. -/
inductive DecodeFault where
  /-- `length` bytes from position `start` on, the first of which is `byte`, are no text. -/
  | malformed (codec : String) (byte : UInt8) (start length : Nat) (defect : Defect)
  /-- The codec says in its own words what is missing. -/
  | failed (message : String)
  | unknownEncoding (name : Text)
deriving DecidableEq, Repr

/-- Why a text cannot be written as bytes. -/
inductive EncodeFault where
  /-- From position `start` on, `length` characters are not covered; `shown` is the first as it is
  quoted. -/
  | uncovered (codec : String) (shown : Text) (start length : Nat) (defect : Defect)
  /-- The codec says in its own words what is wrong. -/
  | failed (message : String)
  | unknownEncoding (name : Text)
deriving DecidableEq, Repr

def unknownEncodingMessage (name : Text) : String := s!"unknown encoding: {String.ofList name}"

namespace DecodeFault

def message : DecodeFault → String
  | malformed codec byte start length defect =>
    if length = 1 then
      let shown := String.ofList (Text.hex 2 byte.toNat)
      s!"'{codec}' codec can't decode byte 0x{shown} in position {start}: {defect.message}"
    else
      let last := start + length - 1
      s!"'{codec}' codec can't decode bytes in position {start}-{last}: {defect.message}"
  | failed message => message
  | unknownEncoding name => unknownEncodingMessage name

end DecodeFault

namespace EncodeFault

def message : EncodeFault → String
  | uncovered codec shown start length defect =>
    if length = 1 then
      let char := String.ofList shown
      s!"'{codec}' codec can't encode character '{char}' in position {start}: {defect.message}"
    else
      let last := start + length - 1
      s!"'{codec}' codec can't encode characters in position {start}-{last}: {defect.message}"
  | failed message => message
  | unknownEncoding name => unknownEncodingMessage name

end EncodeFault
end SchemaDump
