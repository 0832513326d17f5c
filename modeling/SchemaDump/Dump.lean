import SchemaDump.Attachment
import SchemaDump.Statement

/-! Dumps: texts of many statements, taken apart into objects. -/
namespace SchemaDump

/-- What one statement of a dump comes to. -/
inductive Part where
  | unrecognised (statement : Text)
  | recognised (c : Classified)
deriving DecidableEq, Repr

namespace Part

/-- A statement is classified without the blanks around it, and kept with them if it is not
recognised. A blank one comes to nothing. -/
def ofStatement? (statement : Text) : Option Part :=
  let trimmed := Text.trim statement
  if trimmed.isEmpty then none
  else some (match Classified.ofStatement? trimmed with
    | some c => recognised c
    | none => unrecognised statement)

def residual? : Part → Option Text
  | unrecognised s => some s
  | recognised c => if c.residual.isEmpty then none else some c.residual

def object? : Part → Option Object
  | unrecognised _ => none
  | recognised c => if c.kind.isAttachable then none else some c.toObject

def attachable? : Part → Option Attachable
  | unrecognised _ => none
  | recognised c => if c.kind.isAttachable then some c.toAttachable else none

end Part

/-- The objects of a dump, the text that belongs to none, and the remarks made on the way. -/
structure Dump where
  objects : List Object
  residual : Text
  notes : List Note := []
deriving DecidableEq, Repr

namespace Dump

def statements (s : Text) : List Text := Statement.split [';'] s

def parts (s : Text) : List Part := (statements s).filterMap Part.ofStatement?

def parse (s : Text) : Dump :=
  let ps := parts s
  let objects := ps.filterMap Part.object?
  let attachables := ps.filterMap Part.attachable?
  let attached := Attachment.attach objects attachables
  { objects := attached.1
    residual := Text.trim (['\n'].intercalate (ps.filterMap Part.residual?))
    notes :=
      .classified (objects.length + attachables.length) (statements s).length attachables.length
        :: attached.2 }

end Dump

namespace Object

/-- How many objects of each kind there are, by the kind's name. -/
def counts (os : List Object) : List (Kind × Nat) :=
  (Kind.all.map fun k => (k, os.countP fun o => o.kind = k)).filter fun p => p.2 ≠ 0

end Object
end SchemaDump
