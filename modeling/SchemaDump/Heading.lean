import SchemaDump.Identifier
import SchemaDump.Kind

/-! The headings by which statements are recognised. -/
namespace SchemaDump

open Reading

/-- What a heading says of its statement. -/
structure Heading where
  schema : Text
  name : Option Text
  table : Option Text := none
  column : Option Text := none
deriving DecidableEq, Repr

namespace Heading

/-- `CREATE`, the words `what`, and a name. -/
def creation (what : Reading Unit) : Reading Heading := do
  word "CREATE"
  blanks
  what
  blanks
  let q ← qualifiedName
  return { schema := q.schemaOrPublic, name := some q.name }

/-- The word `w` and blanks, or nothing. -/
def maybe (w : String) : Reading Unit := do
  let _ ← optional (do word w; blanks)

def maybeReplacing : Reading Unit := do
  let _ ← optional (do word "OR"; blanks; word "REPLACE"; blanks)

def tableWords : Reading Unit := do
  maybe "UNLOGGED"
  word "TABLE"
  let _ ← optional (do blanks; word "IF"; blanks; word "NOT"; blanks; word "EXISTS")

def viewWords : Reading Unit := do
  maybeReplacing
  let _ ← optional (do word "RECURSIVE" <|> word "MATERIALIZED"; blanks)
  word "VIEW"

/-- A schema is its own schema. -/
def ofSchema : Reading Heading := do
  word "CREATE"
  blanks
  word "SCHEMA"
  blanks
  let name ← identifier
  return { schema := name, name := some name }

/-- The identifier after the name is the schema, whichever of `WITH` and `SCHEMA` stand before
it. -/
def ofExtension : Reading Heading := do
  word "CREATE"
  blanks
  word "EXTENSION"
  blanks
  let _ ← optional (do word "IF"; blanks; word "NOT"; blanks; word "EXISTS"; blanks)
  let name ← identifier
  let schema ← optional do
    let _ ← optional (do blanks; word "WITH")
    let _ ← optional (do blanks; word "SCHEMA")
    blanks
    identifier
  return { schema := schema.getD QualifiedName.publicSchema, name := some name }

def alteredTable : Reading QualifiedName := do
  word "ALTER"
  blanks
  word "TABLE"
  blanks
  maybe "ONLY"
  qualifiedName

/-- `ALTER TABLE t ALTER COLUMN c ADD`, with the blanks after it: the table and the column. -/
def columnAddition : Reading (QualifiedName × Text) := do
  let table ← alteredTable
  blanks
  word "ALTER"
  blanks
  maybe "COLUMN"
  let column ← identifier
  blanks
  word "ADD"
  blanks
  return (table, column)

/-- A closing parenthesis is the last character before the last semicolon, blanks apart. -/
def endsList (s : Text) : Bool :=
  match Text.splitLast ';' s with
  | some (front, _) => (Text.trimEnd front).getLast? = some ')'
  | none => false

def ofSequence : Reading Heading := do
  let (table, column) ← columnAddition
  word "GENERATED"
  blanks
  word "ALWAYS" <|> (do word "BY"; blanks; word "DEFAULT")
  blanks
  word "AS"
  blanks
  word "IDENTITY"
  blanks
  char '('
  gap
  word "SEQUENCE"
  blanks
  word "NAME"
  blanks
  let sequence ← qualifiedNameBefore endsList
  return { schema := table.schemaOrPublic
           name := some (qualify sequence.schemaOrPublic sequence.name)
           table := some table.name
           column := some column }

def ofConstraint : Reading Heading := do
  let table ← alteredTable
  blanks
  word "ADD"
  blanks
  word "CONSTRAINT"
  blanks
  let name ← identifier
  return { schema := table.schemaOrPublic, name := some name, table := some table.name }

def ofIndex : Reading Heading := do
  word "CREATE"
  blanks
  maybe "UNIQUE"
  word "INDEX"
  blanks
  let name ← optional (do let name ← identifier; blanks; return name)
  word "ON"
  blanks
  maybe "ONLY"
  let table ← qualifiedName
  return { schema := table.schemaOrPublic, name := name, table := some table.name }

end Heading

namespace Kind

/-- The heading of a statement of kind `k`. -/
def heading : Kind → Reading Heading
  | schema => Heading.ofSchema
  | extension => Heading.ofExtension
  | type => Heading.creation (word "TYPE")
  | domain => Heading.creation (word "DOMAIN")
  | function => Heading.creation (do Heading.maybeReplacing; word "FUNCTION")
  | procedure => Heading.creation (do Heading.maybeReplacing; word "PROCEDURE")
  | table => Heading.creation Heading.tableWords
  | view => Heading.creation Heading.viewWords
  | sequence => Heading.ofSequence
  | constraint => Heading.ofConstraint
  | index => Heading.ofIndex

/-- The order in which kinds are tried on a statement. -/
def byPriority : List Kind :=
  [schema, extension, type, domain, function, procedure, table, sequence, view, constraint, index]

end Kind
end SchemaDump
