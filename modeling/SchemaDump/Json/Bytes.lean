import SchemaDump.Encoding.Utf8
import SchemaDump.Json.Reader

/-! JSON documents read from bytes. -/
namespace SchemaDump.Json

/-- UTF-16 text in which half a pair of surrogates is replaced. -/
def ofUtf16? (order : ByteOrder) : Bytes → Option Text
  | [] => some []
  | [_] => none
  | a :: b :: s =>
    let n := order.join a b
    match s with
    | c :: d :: t =>
      let m := order.join c d
      if Utf16.isHigh n && Utf16.isLow m then (ofUtf16? order t).map (Utf16.joined n m :: ·)
      else (ofUtf16? order (c :: d :: t)).map (character n :: ·)
    | rest => (ofUtf16? order rest).map (character n :: ·)

/-- UTF-32 text in which surrogates are replaced. -/
def ofUtf32? (order : ByteOrder) : Bytes → Option Text
  | [] => some []
  | a :: b :: c :: d :: s =>
    let n := match order with
      | .little => order.join a b + 0x10000 * order.join c d
      | .big => 0x10000 * order.join a b + order.join c d
    if n < 0x110000 then (ofUtf32? order s).map (character n :: ·) else none
  | _ => none

/-- Whether three bytes are half a pair of surrogates, put as a character in UTF-8 is. -/
def isHalf (a b c : UInt8) : Bool :=
  a = 0xED && 0xA0 ≤ b && b ≤ 0xBF && 0x80 ≤ c && c ≤ 0xBF

/-- The bytes with U+FFFD in place of each half. -/
def withoutHalves : Bytes → Bytes
  | a :: b :: c :: s =>
    if isHalf a b c then 0xEF :: 0xBF :: 0xBD :: withoutHalves s
    else a :: withoutHalves (b :: c :: s)
  | s => s

/-- UTF-8 text in which half a pair of surrogates is replaced, if there is one. -/
def ofUtf8? (s : Bytes) : Option Text :=
  (Utf8.decode s).toOption <|> (Utf8.decode (withoutHalves s)).toOption

/-- The text of a document. A mark of the byte order tells its encoding, or else the places of the
zeros among the first bytes; without either it is UTF-8. -/
def text? (s : Bytes) : Option Text :=
  match s with
  | 0 :: 0 :: 0xFE :: 0xFF :: t => ofUtf32? .big t
  | 0xFF :: 0xFE :: 0 :: 0 :: t => ofUtf32? .little t
  | 0xFE :: 0xFF :: t => ofUtf16? .big t
  | 0xFF :: 0xFE :: t => ofUtf16? .little t
  | 0xEF :: 0xBB :: 0xBF :: t => ofUtf8? t
  | 0 :: 0 :: _ :: _ :: _ => ofUtf32? .big s
  | 0 :: _ :: _ :: _ :: _ => ofUtf16? .big s
  | _ :: 0 :: 0 :: 0 :: _ => ofUtf32? .little s
  | _ :: 0 :: _ :: _ :: _ => ofUtf16? .little s
  | [0, _] => ofUtf16? .big s
  | [_, 0] => ofUtf16? .little s
  | _ => ofUtf8? s

def ofBytes? (s : Bytes) : Option Json := (text? s).bind parse?

end SchemaDump.Json
