import SchemaDump.Heading

/-! Database objects, and the statements that belong to them. -/
namespace SchemaDump

/-- A database object that is kept in a file of its own. -/
structure Object where
  kind : Kind
  schema : Text
  name : Text
  definition : Text
  qualifiedName : Option Text := none
  sequences : Option (List Text) := none
  constraints : Option (List Text) := none
  indexes : Option (List Text) := none
deriving DecidableEq, Repr

namespace Object

/-- The name under which the object is kept. -/
def stem (o : Object) : Text :=
  match o.qualifiedName with
  | some (c :: q) => c :: q
  | _ => o.name

/-- What the attachable statements of this object call it. -/
def key (o : Object) : Text := qualify o.schema o.name

end Object

/-- A sequence, constraint or index statement of a table. -/
structure Attachable where
  kind : Kind
  schema : Text
  table : Text
  name : Option Text
  definition : Text
  column : Option Text := none
deriving DecidableEq, Repr

namespace Attachable

/-- The owner's name with its schema. -/
def key (a : Attachable) : Text := qualify a.schema a.table

end Attachable

/-- A recognised statement: its text from the heading on, and what stands before the heading. -/
structure Classified where
  kind : Kind
  heading : Heading
  definition : Text
  residual : Text := []
deriving DecidableEq, Repr

namespace Classified

def name (c : Classified) : Text := c.heading.name.getD []

def toObject (c : Classified) : Object where
  kind := c.kind
  schema := c.heading.schema
  name := c.name
  definition := c.definition
  qualifiedName := if c.kind = .schema then none else some (qualify c.heading.schema c.name)

def toAttachable (c : Classified) : Attachable where
  kind := c.kind
  schema := c.heading.schema
  table := c.heading.table.getD []
  name := c.heading.name
  definition := c.definition
  column := c.heading.column

/-- The first kind whose heading occurs in the statement, at the heading's first occurrence. -/
def ofStatement? (statement : Text) : Option Classified :=
  Kind.byPriority.findSome? fun kind =>
    (kind.heading.search statement).map fun found =>
      { kind := kind
        heading := found.value
        definition := found.here
        residual := statement.take (statement.length - found.here.length) }

end Classified
end SchemaDump
