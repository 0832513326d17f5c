import SchemaDump.Piece

/-! Statements: a text cut after the separators that stand in code. -/
namespace SchemaDump

/-- Where the scanner stands. -/
inductive Mode where
  | code | lineComment | blockComment | string | quotedIdentifier
deriving DecidableEq, Repr

namespace Mode

/-- The mode after two characters that make one mark. A mark that opens a comment is also read,
to no effect, inside a comment of its own sort. -/
def afterMark? : Mode → Char → Char → Option Mode
  | code, '-', '-' | lineComment, '-', '-' => some lineComment
  | code, '/', '*' | blockComment, '/', '*' => some blockComment
  | blockComment, '*', '/' => some code
  | _, _, _ => none

/-- The mode after a character that belongs to no mark. -/
def after : Mode → Char → Mode
  | code, '\x27' => string
  | string, '\x27' => code
  | code, '"' => quotedIdentifier
  | quotedIdentifier, '"' => code
  | lineComment, '\n' | lineComment, '\r' => code
  | m, _ => m

def isComment : Mode → Bool
  | lineComment | blockComment => true
  | _ => false

/-- A separator cuts outside comments, and where it leaves the scanner in code. -/
def cuts (separator : Text) (m : Mode) (c : Char) : Bool :=
  [c] = separator && !m.isComment && m.after c = code

end Mode

namespace Statement

/-- Scans the pieces in mode `m`; `sofar` is the statement so far, reversed. -/
def scan (separator : Text) (m : Mode) (sofar : Text) : List Piece → List Text
  | [] => if sofar.isEmpty then [] else [sofar.reverse]
  | .dollar t :: ps => scan separator m (t.reverse ++ sofar) ps
  | .plain c :: .plain d :: ps =>
    match m.afterMark? c d with
    | some n => scan separator n (d :: c :: sofar) ps
    | none =>
      if m.cuts separator c then (c :: sofar).reverse :: scan separator .code [] (.plain d :: ps)
      else scan separator (m.after c) (c :: sofar) (.plain d :: ps)
  | .plain c :: ps =>
    if m.cuts separator c then (c :: sofar).reverse :: scan separator .code [] ps
    else scan separator (m.after c) (c :: sofar) ps

/-- The statements of a text, each with its separator, and a remainder that has none. Only a
separator of one character is ever found. -/
def split (separator : Text) (s : Text) : List Text :=
  scan separator .code [] (Piece.ofText s)

end Statement
end SchemaDump
