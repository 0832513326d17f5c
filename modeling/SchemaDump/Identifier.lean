import SchemaDump.Reading
import SchemaDump.Text.Word

/-! Identifiers, bare or in double quotes, and names with an optional schema. -/
namespace SchemaDump

open Reading

namespace Identifier

def startsBare (c : Char) : Bool := Text.isWord c && !Text.isDigit c

def continuesBare (c : Char) : Bool := Text.isWord c || c = '$'

/-- How long a name in double quotes may be whose first `n` characters have been read, at least the
opening quote; the longest first, and last those in `shorter`. Two quotes stand for one inside the
name, and the first of them closes it only if nothing else will do. The name is not empty. -/
def closings (shorter : List Nat) (n : Nat) : Text → List Nat
  | '"' :: '"' :: s => closings (if n = 1 then shorter else (n + 1) :: shorter) (n + 2) s
  | '"' :: _ => if n = 1 then shorter else (n + 1) :: shorter
  | _ :: s => closings shorter (n + 1) s
  | [] => shorter

/-- How long an identifier at the start of a text may be, the preferred length first. A bare one is
a word that starts with no digit, read to its end: nothing that may follow an identifier starts
inside one. -/
def lengths : Text → List Nat
  | [] => []
  | c :: s =>
    if c = '"' then closings [] 1 s
    else if startsBare c then [1 + (s.takeWhile continuesBare).length]
    else []

end Identifier

/-- An identifier as it is written, with its quotes, where the rest passes `p`. -/
def identifierBefore (p : Text → Bool) : Reading Text := fun s =>
  ((Identifier.lengths s).find? fun n => p (s.drop n)).toList.map fun n => (s.take n, s.drop n)

/-- An identifier. There is no need to look for a shorter one where what follows fails: it would
leave a text that starts with a quote, and nothing that may follow does. -/
def identifier : Reading Text := identifierBefore fun _ => true

/-- A name with the schema before it, if there is one. -/
structure QualifiedName where
  schema : Option Text
  name : Text
deriving DecidableEq, Repr

namespace QualifiedName

/-- The schema of a name that gives none. -/
def publicSchema : Text := "public".toList

def schemaOrPublic (q : QualifiedName) : Text := q.schema.getD publicSchema

end QualifiedName

def qualifiedNameBefore (p : Text → Bool) : Reading QualifiedName :=
  (do let schema ← identifier
      char '.'
      return ⟨some schema, ← identifierBefore p⟩) <|>
  (do return ⟨none, ← identifierBefore p⟩)

def qualifiedName : Reading QualifiedName := qualifiedNameBefore fun _ => true

/-- Schema and name with a dot between them. -/
def qualify (schema name : Text) : Text := schema ++ '.' :: name

end SchemaDump
