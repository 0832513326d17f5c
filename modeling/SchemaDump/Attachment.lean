import SchemaDump.Clause
import SchemaDump.Column
import SchemaDump.Object

/-! Attachable statements written into the definitions of their owners, and remarks on those that are
not.

Objects are values. One that is listed twice counts as two equal objects, each of which receives its
own statements. -/
namespace SchemaDump

/-- A remark on what could not be done, or on what was. -/
inductive Note where
  | columnNotFound (column sequence : Option Text)
  | identityNotRecognised (sequence : Option Text)
  | noClosingParenthesis (constraints : Nat)
  | constraintNotRecognised (constraint : Option Text)
  | noOwner (key : Text)
  | classified (count statements attachables : Nat)
deriving DecidableEq, Repr

namespace Note

/-- A name that may be missing. -/
def shown : Option Text → String
  | some name => String.ofList name
  | none => "None"

def message : Note → String
  | columnNotFound column sequence =>
    s!"Column {shown column} not found for sequence {shown sequence}"
  | identityNotRecognised sequence =>
    s!"Unrecognised identity statement for sequence {shown sequence}"
  | noClosingParenthesis n => s!"No closing parenthesis; dropping {n} constraint(s)"
  | constraintNotRecognised constraint =>
    s!"Unrecognised constraint statement for {shown constraint}"
  | noOwner key => s!"No table or view {String.ofList key}; dropping its attachable statements"
  | classified count statements attachables =>
    s!"Classified {count} of {statements} statements ({attachables} attachable)"

end Note

/-- The attachable statements of one owner. -/
structure Group where
  key : Text
  sequences : List Attachable
  constraints : List Attachable
  indexes : List Attachable
deriving DecidableEq, Repr

namespace Group

def ofKind (kind : Kind) (as : List Attachable) : List Attachable :=
  as.filter fun a => a.kind = kind

/-- Statements, each after the name of its owner. -/
def keyed (as : List Attachable) : List (Text × Attachable) := as.map fun a => (a.key, a)

/-- The group of `key` among statements that stand after the names of their owners. -/
def of (keyed : List (Text × Attachable)) (key : Text) : Group :=
  let own := (keyed.filter fun p => p.1 = key).map Prod.snd
  { key := key
    sequences := ofKind .sequence own
    constraints := ofKind .constraint own
    indexes := ofKind .index own }

/-- The owners' names, in the order in which they are first named. -/
def keys (as : List Attachable) : List Text := (as.map Attachable.key).eraseDups

def all (as : List Attachable) : List Group := (keys as).map (of (keyed as))

end Group

namespace Attachment

/-- The identity clause of one sequence in its column, or why it is left out. -/
def addSequence (definition : Text) (a : Attachable) : Except Note Text :=
  match Column.find? definition (a.column.getD []) with
  | none => .error (.columnNotFound a.column a.name)
  | some column =>
    match Clause.identity? a.definition with
    | none => .error (.identityNotRecognised a.name)
    | some clause => .ok (column.insert clause)

def addSequences (definition : Text) : List Attachable → Text × List Note
  | [] => (definition, [])
  | a :: as =>
    match addSequence definition a with
    | .ok added => addSequences added as
    | .error note =>
      let (added, notes) := addSequences definition as
      (added, note :: notes)

/-- The clauses of the constraints that have one, and a note on each other. -/
def constraintClauses : List Attachable → List Text × List Note
  | [] => ([], [])
  | a :: as =>
    let (clauses, notes) := constraintClauses as
    match Clause.constraint? a.definition with
    | some clause => (clause :: clauses, notes)
    | none => (clauses, .constraintNotRecognised a.name :: notes)

/-- All constraint clauses before the closing parenthesis, each on a line of its own. -/
def addConstraints (definition : Text) (as : List Attachable) : Text × List Note :=
  match closingParenthesis? definition with
  | none => (definition, [.noClosingParenthesis as.length])
  | some (inside, closing) =>
    let (clauses, notes) := constraintClauses as
    if clauses.isEmpty then (definition, notes)
    else
      let newItem := ',' :: '\n' :: Indent.detect definition
      (Text.trimEnd inside ++ clauses.flatMap (newItem ++ ·) ++ '\n' :: closing, notes)

/-- The indexes after an empty line, each on lines of its own. -/
def addIndexes (definition : Text) (as : List Attachable) : Text :=
  definition ++ '\n' :: '\n' :: ['\n'].intercalate (as.map Attachable.definition)

def definitions? (as : List Attachable) : Option (List Text) :=
  if as.isEmpty then none else some (as.map Attachable.definition)

/-- The object with the statements of its group. They are recorded also where their clause is not
recognised; a kind without statements leaves the record as it is. -/
def receive (o : Object) (g : Group) : Object × List Note :=
  let (withSequences, notes) := addSequences o.definition g.sequences
  let (withConstraints, moreNotes) :=
    if g.constraints.isEmpty then (withSequences, [])
    else addConstraints withSequences g.constraints
  let definition :=
    if g.indexes.isEmpty then withConstraints else addIndexes withConstraints g.indexes
  ({ o with
      definition := definition
      sequences := definitions? g.sequences <|> o.sequences
      constraints := definitions? g.constraints <|> o.constraints
      indexes := definitions? g.indexes <|> o.indexes },
    notes ++ moreNotes)

def attachOne (keyed : List (Text × Attachable)) (o : Object) : Object × List Note :=
  if o.kind.isOwner then receive o (Group.of keyed o.key) else (o, [])

/-- The owners' names that no table or view has, in order of code points. -/
def orphans (as : List Attachable) (os : List Object) : List Text :=
  let owned := (os.filter fun o => o.kind.isOwner).map Object.key
  ((Group.keys as).filter fun key => key ∉ owned).mergeSort Text.le

/-- Each object with the statements that name it as their owner. -/
def attach (os : List Object) (as : List Attachable) : List Object × List Note :=
  let received := os.map (attachOne (Group.keyed as))
  (received.map Prod.fst, received.flatMap Prod.snd ++ (orphans as os).map Note.noOwner)

end Attachment
end SchemaDump
