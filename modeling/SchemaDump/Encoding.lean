import SchemaDump.Encoding.Utf16
import SchemaDump.Encoding.Utf8

/-! Encodings of texts. Any codec is one, also if it is not among those that have a name here. -/
namespace SchemaDump

/-- A codec: the bytes that a text is written as, and the text that bytes are read as, or why there
are none. -/
structure Encoding where
  encode : Text → Except EncodeFault Bytes
  decode : Bytes → Except DecodeFault Text

namespace Encoding

def utf8 : Encoding where
  encode s := .ok (Utf8.encode s)
  decode := Utf8.decode

/-- The signature is left out, and so is a beginning of it that is all there is. -/
def decodeSigned (s : Bytes) : Except DecodeFault Text :=
  if Utf8.signature.isPrefixOf s then Utf8.decode (s.drop Utf8.signature.length)
  else if s.isPrefixOf Utf8.signature then .ok []
  else Utf8.decode s

def utf8Signed : Encoding where
  encode s := .ok (Utf8.signature ++ Utf8.encode s)
  decode := decodeSigned

def utf16 : Encoding where
  encode s := .ok (Utf16.mark ++ Utf16.encode .little s)
  decode := Utf16.decodeMarked

def utf16Little : Encoding where
  encode s := .ok (Utf16.encode .little s)
  decode := Utf16.decode .little

/-- One byte for each character; there are `limit` characters. -/
def encodeSingle (codec : String) (limit : Nat) (s : Text) : Except EncodeFault Bytes :=
  let covered := fun c : Char => decide (c.toNat < limit)
  match s.dropWhile covered with
  | [] => .ok (s.map fun c => UInt8.ofNat c.toNat)
  | c :: t =>
    .error (.uncovered codec (Text.escape c) (s.takeWhile covered).length
      (1 + (t.takeWhile fun c => !covered c).length) (.outOfRange limit))

def latin1 : Encoding where
  encode := encodeSingle "latin-1" 256
  decode s := .ok (s.map fun b => Char.ofNat b.toNat)

def decodeAscii (s : Bytes) : Except DecodeFault Text :=
  match s.dropWhile (· < 128) with
  | [] => .ok (s.map fun b => Char.ofNat b.toNat)
  | b :: _ => .error (.malformed "ascii" b (s.takeWhile (· < 128)).length 1 (.outOfRange 128))

def ascii : Encoding where
  encode := encodeSingle "ascii" 128
  decode := decodeAscii

/-- A name that stands for no codec fails where it is used. -/
def unknown (name : Text) : Encoding where
  encode _ := .error (.unknownEncoding name)
  decode _ := .error (.unknownEncoding name)

/-- The names of an encoding differ in capitals, and in what stands between their words. -/
def words (name : Text) : List Text :=
  ((name.map Char.toLower).splitOnP fun c => !(c.isAlphanum || c = '.')).filter (· ≠ [])

def ofName (name : Text) : Encoding :=
  match String.ofList (['_'].intercalate (words name)) with
  | "utf_8" | "utf8" | "utf" | "u8" => utf8
  | "utf_8_sig" => utf8Signed
  | "utf_16" | "utf16" | "u16" => utf16
  | "utf_16_le" | "utf_16le" => utf16Little
  | "latin_1" | "latin1" | "latin" | "l1" | "iso_8859_1" | "iso8859_1" | "8859" | "cp819" => latin1
  | "ascii" | "us_ascii" | "646" => ascii
  | _ => unknown name

end Encoding
end SchemaDump
