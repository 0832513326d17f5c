import SchemaDump.Text

/-! Kinds of database objects. -/
namespace SchemaDump

inductive Kind where
  | schema | extension | type | domain | function | procedure | table | view
  | sequence | constraint | index
deriving DecidableEq, Repr

namespace Kind

def name : Kind → String
  | schema => "schema"
  | extension => "extension"
  | type => "type"
  | domain => "domain"
  | function => "function"
  | procedure => "procedure"
  | table => "table"
  | view => "view"
  | sequence => "sequence"
  | constraint => "constraint"
  | index => "index"

/-- All kinds, in the order of their names. -/
def all : List Kind :=
  [constraint, domain, extension, function, index, procedure, schema, sequence, table, type, view]

def ofName? (s : Text) : Option Kind := all.find? fun k => k.name.toList = s

/-- The folder that holds objects of this kind. -/
def folder (k : Kind) : Text := k.name.toList ++ ['s']

/-- Kinds of statements that belong to a table and make no object of their own. -/
def isAttachable : Kind → Bool
  | sequence | constraint | index => true
  | _ => false

/-- Kinds of objects that attachable statements may belong to. -/
def isOwner : Kind → Bool
  | table | view => true
  | _ => false

end Kind
end SchemaDump
