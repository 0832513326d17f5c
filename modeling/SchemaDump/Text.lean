/-! Texts as lists of characters: their parts and order, the blanks and letters in them, and the
indentation of their lines.

The characters are the scalar values of Unicode. There is none for half of a surrogate pair. -/
namespace SchemaDump

abbrev Text := List Char

namespace Text

/-- The text before the last `c`, and the text from that `c` on. -/
def splitLast (c : Char) : Text → Option (Text × Text)
  | [] => none
  | x :: s =>
    match splitLast c s with
    | some (front, back) => some (x :: front, back)
    | none => if x = c then some ([], x :: s) else none

/-- Where the first occurrence of `mark` ends, counted from `start` at the beginning of the text. -/
def endOfFirst (mark : Text) (start : Nat) : Text → Option Nat
  | [] => if mark = [] then some start else none
  | x :: s =>
    if mark.isPrefixOf (x :: s) then some (start + mark.length) else endOfFirst mark (start + 1) s

/-- Membership in ranges of code points, ends included. -/
def inRanges (ranges : List (Nat × Nat)) (n : Nat) : Bool :=
  ranges.any fun (lo, hi) => lo ≤ n && n ≤ hi

/-- Order by code points, a proper beginning of a text before the text. -/
def le : Text → Text → Bool
  | [], _ => true
  | _ :: _, [] => false
  | x :: s, y :: t => x.val < y.val || (x = y && le s t)

/-! Blank characters, and trimming -/

/-- Tabulators, line and page ends, the four separator controls, and every space of Unicode. -/
def isBlank (c : Char) : Bool :=
  let n := c.toNat
  (9 ≤ n && n ≤ 13) || (28 ≤ n && n ≤ 32) || n = 0x85 || n = 0xA0 || n = 0x1680 ||
    (0x2000 ≤ n && n ≤ 0x200A) || n = 0x2028 || n = 0x2029 || n = 0x202F || n = 0x205F ||
    n = 0x3000

def trimStart (s : Text) : Text := s.dropWhile isBlank

/-- `s` less the longest end whose characters all pass `p`. -/
def dropEnd (p : Char → Bool) (s : Text) : Text := (s.reverse.dropWhile p).reverse

def trimEnd (s : Text) : Text := dropEnd isBlank s

def trim (s : Text) : Text := trimEnd (trimStart s)

/-! Letters in either case -/

/-- The capital a letter counts as in a keyword. Besides the ASCII letters, the long s counts as S,
the dotted capital and the dotless small i as I, and the Kelvin sign as K. -/
def capital (c : Char) : Char :=
  if 'a' ≤ c ∧ c ≤ 'z' then Char.ofNat (c.toNat - 32)
  else if c = '\u017F' then 'S'
  else if c = '\u0130' ∨ c = '\u0131' then 'I'
  else if c = '\u212A' then 'K'
  else c

/-- What follows the keyword `w`, given in capitals, at the start of a text. -/
def afterWord : Text → Text → Option Text
  | [], s => some s
  | _ :: _, [] => none
  | k :: w, c :: s => if capital c = k then afterWord w s else none

/-- A letter in capitals, if these are ASCII. Besides the ASCII letters, the long s, the sharp s and
the dotless i have such capitals, and the ligatures of f, i, l, s and t. -/
def capitals (c : Char) : Text :=
  match c with
  | '\u00DF' => ['S', 'S']
  | '\u0131' => ['I']
  | '\u017F' => ['S']
  | '\uFB00' => ['F', 'F']
  | '\uFB01' => ['F', 'I']
  | '\uFB02' => ['F', 'L']
  | '\uFB03' => ['F', 'F', 'I']
  | '\uFB04' => ['F', 'F', 'L']
  | '\uFB05' | '\uFB06' => ['S', 'T']
  | _ => [c.toUpper]

end Text

/-! The indentation unit of a text -/

namespace Indent

def isIndent (c : Char) : Bool := c = ' ' || c = '\t'

/-- The indents of the lines that have one. -/
def runs (s : Text) : List Text :=
  (((s.splitOn '\n').map fun line => line.takeWhile isIndent)).filter fun run => !run.isEmpty

/-- The greatest common divisor of the lengths of the runs that start with `c`. -/
def unit (c : Char) (rs : List Text) : Nat :=
  ((rs.filter fun run => run.head? = some c).map List.length).foldl Nat.gcd 0

/-- The indent of more than half of the indented lines, if there is one. Else as many spaces as
divide all indents that start with a space, or if there are none, tabs likewise. -/
def detect (s : Text) : Text :=
  let rs := runs s
  match rs.eraseDups.find? fun run => rs.length < 2 * rs.count run with
  | some run => run
  | none =>
    if rs.any fun run => run.head? = some ' ' then List.replicate (unit ' ' rs) ' '
    else List.replicate (unit '\t' rs) '\t'

end Indent
end SchemaDump
