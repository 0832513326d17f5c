import SchemaDump.Heading
import SchemaDump.Statement

/-! Columns of a table definition, found by name. -/
namespace SchemaDump

open Reading

/-- A definition cut at the last closing parenthesis before its last semicolon. -/
def closingParenthesis? (definition : Text) : Option (Text × Text) :=
  let body := match Text.splitLast ';' definition with
    | some (front, _) => front
    | none => definition
  (Text.splitLast ')' body).map fun (front, _) => (front, definition.drop front.length)

/-- A column's text within a definition, and what stands around it. -/
structure Column where
  before : Text
  item : Text
  after : Text
deriving DecidableEq, Repr

namespace Column

/-- The header of a table definition up to its opening parenthesis. -/
def tableHeader : Reading Unit := do
  let _ ← Heading.creation Heading.tableWords
  gap
  ahead fun s => s.head? = some '('

/-- A text begins with the column's name and a blank, after any blanks. The name may have blanks of
its own. -/
def isNamed (column : Text) : Text → Bool
  | [] => false
  | c :: s =>
    (column.isPrefixOf (c :: s) && ((c :: s).drop column.length).head?.any Text.isBlank) ||
      (Text.isBlank c && isNamed column s)

/-- The items of a list before the first that begins with the column's name, that item, and those
after it. -/
def pick? (column : Text) : List Text → Option (List Text × Text × List Text)
  | [] => none
  | item :: items =>
    if isNamed column item then some ([], item, items)
    else (pick? column items).map fun (front, it, back) => (item :: front, it, back)

def isFiller (c : Char) : Bool := c = ',' || Text.isBlank c

/-- The column, without the blanks before it and the blanks and commas after it. -/
def find? (definition column : Text) : Option Column := do
  let header ← tableHeader.search definition
  let opening := definition.length - header.rest.length
  let (inside, closing) ← closingParenthesis? definition
  if opening < inside.length then
    let head := inside.take (opening + 1)
    let (front, item, back) ← pick? column (Statement.split [','] (inside.drop (opening + 1)))
    let text := Text.dropEnd isFiller item
    return { before := head ++ front.flatten ++ text.takeWhile Text.isBlank
             item := Text.trimStart text
             after := item.drop text.length ++ back.flatten ++ closing }
  else none

/-- A null clause, to the end of the text. -/
def nullClause : Reading Unit := do
  blanks
  let _ ← optional (do word "NOT"; blanks)
  word "NULL"
  gap
  ahead List.isEmpty

/-- The text from its null clause on, if it ends in one. A clause is looked for only where blanks
begin: amid them, the same would follow. -/
def nullClause? (afterBlank : Bool) : Text → Option Text
  | [] => none
  | c :: s =>
    if Text.isBlank c && !afterBlank && !(nullClause (c :: s)).isEmpty then some (c :: s)
    else nullClause? (Text.isBlank c) s

/-- The definition with a clause in the column, before the null clause if it has one. -/
def insert (c : Column) (clause : Text) : Text :=
  let tail := (nullClause? false c.item).getD []
  c.before ++ c.item.take (c.item.length - tail.length) ++ ' ' :: clause ++ tail ++ c.after

end Column
end SchemaDump
