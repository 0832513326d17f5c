import SchemaDump.Text.Printable
import SchemaDump.Text.Word

/-! Names of hosts. -/
namespace SchemaDump.Service

/-- Why a text is no name of a host. -/
inductive HostFault where
  | labelSize
  | labelTooLong
  | invalid (c : Char)
  | marked
  | mixedDirections
  | directionAtEnds
deriving DecidableEq, Repr

namespace HostFault

def reason : HostFault → String
  | labelSize => "label empty or too long"
  | labelTooLong => "label too long"
  | invalid c => "Invalid character " ++ String.ofList (Text.quoted [c])
  | marked => "Label starts with ACE prefix"
  | mixedDirections => "Violation of BIDI requirement 2"
  | directionAtEnds => "Violation of BIDI requirement 3"

def message (f : HostFault) : String :=
  s!"encoding with 'idna' codec failed (UnicodeError: {f.reason})"

end HostFault

namespace Host

def isAscii (c : Char) : Bool := c.toNat < 0x80

/-- Characters that are passed over. -/
def isPassedOver (c : Char) : Bool := Text.inRanges
  [(0xAD, 0xAD), (0x34F, 0x34F), (0x1806, 0x1806), (0x180B, 0x180D), (0x200B, 0x200D),
   (0x2060, 0x2060), (0xFE00, 0xFE0F), (0xFEFF, 0xFEFF)] c.toNat

/-- Controls, spaces, and characters for private use or none. -/
def isProhibited (c : Char) : Bool := (0xFFFE ≤ c.toNat % 0x10000 && 0x10000 ≤ c.toNat) ||
  Text.inRanges
    [(0x80, 0x9F), (0x6DD, 0x6DD), (0x70F, 0x70F), (0x1680, 0x1680), (0x180E, 0x180E),
     (0x200E, 0x200F), (0x2028, 0x202E), (0x2061, 0x2063), (0x206A, 0x206F), (0x2FF0, 0x2FFB),
     (0xE000, 0xF8FF), (0xFDD0, 0xFDEF), (0xFFF9, 0xFFFF), (0x1D173, 0x1D17A),
     (0xE0001, 0xE0001), (0xE0020, 0xE007F), (0xF0000, 0x10FFFF)] c.toNat

def isRightToLeft (c : Char) : Bool := Text.inRanges
  [(0x5BE, 0x5BE), (0x5C0, 0x5C0), (0x5C3, 0x5C3), (0x5D0, 0x5EA), (0x5F0, 0x5F4),
   (0x61B, 0x61B), (0x61F, 0x61F), (0x621, 0x63A), (0x640, 0x64A), (0x66D, 0x66F),
   (0x671, 0x6D5), (0x6E5, 0x6E6), (0x6FA, 0x6FE), (0x700, 0x70D), (0x710, 0x710),
   (0x712, 0x72C), (0x780, 0x7A5), (0x7B1, 0x7B1), (0x2135, 0x2138), (0xFB1D, 0xFB1D),
   (0xFB1F, 0xFB28), (0xFB2A, 0xFB36), (0xFB38, 0xFB3C), (0xFB3E, 0xFB3E), (0xFB40, 0xFB41),
   (0xFB43, 0xFB44), (0xFB46, 0xFBB1), (0xFBD3, 0xFC5D), (0xFC64, 0xFD3D), (0xFD50, 0xFD8F),
   (0xFD92, 0xFDC7), (0xFDF0, 0xFDFC), (0xFE71, 0xFE71), (0xFE73, 0xFE73), (0xFE77, 0xFE77),
   (0xFE79, 0xFE79), (0xFE7B, 0xFE7B), (0xFE7D, 0xFE7D), (0xFE7F, 0xFEFC)] c.toNat

/-- Letters that do not run from right to left. -/
def isLeftToRight (c : Char) : Bool :=
  Text.isWord c && !Text.isDigit c && c ≠ '_' && !isRightToLeft c

/-- A full-width form is the ASCII character itself, and a sharp s is two. -/
def narrow (c : Char) : Text :=
  if 0xFF01 ≤ c.toNat ∧ c.toNat ≤ 0xFF5E then [Char.ofNat (c.toNat - 0xFEE0)]
  else if c = 'ß' then ['s', 's']
  else [c]

/-- The number of bytes that a label may not reach. -/
def labelLimit : Nat := 64

/-- What marks a label whose characters outside ASCII are written in ASCII. -/
def mark : Text := "xn--".toList

def sizeFault? (size : Nat) : Option HostFault :=
  if size = 0 ∨ labelLimit ≤ size then some .labelSize else none

/-- A label as it is looked up, but for capitals and compatible forms. -/
def prepared (label : Text) : Text := (label.filter fun c => !isPassedOver c).flatMap narrow

/-- How long a label is in ASCII. Outside ASCII it is at least as long as its mark and its
characters. -/
def size (label : Text) : Nat :=
  let kept := prepared label
  if kept.all isAscii then kept.length else mark.length + kept.length

/-- What is wrong with a label of a name that is not all ASCII. -/
def labelFault? (label : Text) : Option HostFault :=
  let kept := prepared label
  if label.all isAscii then sizeFault? label.length
  else
    match kept.find? isProhibited with
    | some c => some (.invalid c)
    | none =>
      if kept.any isRightToLeft && kept.any isLeftToRight then some .mixedDirections
      else if kept.any isRightToLeft &&
          !(kept.head?.all isRightToLeft && kept.getLast?.all isRightToLeft) then
        some .directionAtEnds
      else if !kept.all isAscii && mark.isPrefixOf (kept.map Char.toLower) then some .marked
      else sizeFault? (size label)

def dots : Text := ['.', '\u3002', '\uFF0E', '\uFF61']

def labels (name : Text) : List Text :=
  (name.map fun c => if c ∈ dots then '.' else c).splitOn '.'

/-- What is wrong with a name. The last label may be empty. -/
def fault? (name : Text) : Option HostFault :=
  let ls := labels name
  if name.all isAscii then
    (ls.dropLast.findSome? fun label => sizeFault? label.length) <|>
      if labelLimit ≤ (ls.getLastD []).length then some .labelTooLong else none
  else (if ls.getLast? = some [] then ls.dropLast else ls).findSome? labelFault?

/-- The labels of a name have sizes with which it can be looked up. -/
def fits (name : Text) : Bool :=
  (labels name).dropLast.all (fun label => (sizeFault? (size label)).isNone) &&
    size ((labels name).getLastD []) < labelLimit

end Host
end SchemaDump.Service
