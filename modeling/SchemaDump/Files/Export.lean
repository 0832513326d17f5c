import SchemaDump.Dump
import SchemaDump.Encoding
import SchemaDump.Files.Tree

/-! Objects written to files, one for each. -/
namespace SchemaDump

namespace Object

/-- A character as it stands in a file name. -/
def nameChar (c : Char) : Char := if c = '/' ∨ c = '\\' ∨ c = '\x00' then '_' else c

def fileName (o : Object) : Text := o.stem.map nameChar ++ ".sql".toList

/-- The path of an object's file within the output folder. -/
def path (o : Object) : Path := [o.kind.folder, o.fileName]

/-- The object as it is called in a report. -/
def label (o : Object) : String := s!"{o.kind.name}: {String.ofList o.stem}"

end Object

/-- Why a file is not written. -/
inductive WriteError where
  | folder (path : Path)
  | object (kind : Kind) (fileName : Text)
  | residual (path : Path) (f : Fault)
deriving DecidableEq, Repr

namespace WriteError

def message : WriteError → String
  | folder p => s!"Failed to create directory: {String.ofList p.render}"
  | object kind fileName => s!"Failed to write {kind.name} {String.ofList fileName}"
  | residual p f => f.message p

end WriteError

namespace Export

inductive Outcome where
  | written
  | failed (e : WriteError)
deriving DecidableEq, Repr

namespace Outcome

def error? : Outcome → Option WriteError
  | written => none
  | failed e => some e

end Outcome

/-- What came of each object, and of the residual text if there is any. -/
structure Summary where
  objects : List (Object × Outcome)
  residual : Option Outcome
deriving DecidableEq, Repr

def residualName : String := "residual.sql"

namespace Summary

def total (s : Summary) : Nat := s.objects.length

def written (s : Summary) : Nat := s.objects.countP fun p => p.2 = .written

def residualWritten (s : Summary) : Bool := s.residual = some .written

/-- The objects that were not written, and why. -/
def objectErrors (s : Summary) : List (String × WriteError) :=
  s.objects.filterMap fun (o, outcome) => outcome.error?.map (o.label, ·)

/-- All that was not written, the residual text last. -/
def errors (s : Summary) : List (String × WriteError) :=
  s.objectErrors ++ (s.residual.bind Outcome.error?).toList.map (residualName, ·)

end Summary

/-- The encodings of a run: that of the texts, which is chosen, and the file system's own one of the
paths. -/
structure Codecs where
  text : Encoding
  path : Encoding

/-- All names of the file system are in UTF-8, and so are the texts. -/
def Codecs.utf8 : Codecs := ⟨.utf8, .utf8⟩

/-- Opens the file at `p`, which empties it, and writes the text into it. A path that the file
system's encoding does not cover is not opened, and a text that its encoding does not cover leaves
the file empty. -/
def writeText (codecs : Codecs) (t : Tree) (p : Path) (s : Text) :
    Tree × Except EncodeFault (Except Fault Unit) :=
  match codecs.path.encode p.render with
  | .error f => (t, .error f)
  | .ok _ =>
    match t.write p [] with
    | .error f => (t, .ok (.error f))
    | .ok opened =>
      match codecs.text.encode s with
      | .error f => (opened, .error f)
      | .ok content => (opened.put p (.file content), .ok (.ok ()))

/-- Makes the folder and writes the text into the file `name` there. The path of a folder is covered:
the output folder has been looked up before, and the folders of kinds have names in ASCII. -/
def writeInto (codecs : Codecs) (t : Tree) (folder : Path) (name : Text) (s : Text)
    (refused : Fault → WriteError) : Tree × Except EncodeFault Outcome :=
  match t.makeFolders folder with
  | (made, false) => (made, .ok (.failed (.folder folder)))
  | (made, true) =>
    let (after, result) := writeText codecs made (folder ++ [name]) s
    (after, result.map fun
      | .ok () => .written
      | .error f => .failed (refused f))

def writeObject (codecs : Codecs) (out : Path) (t : Tree) (o : Object) :
    Tree × Except EncodeFault Outcome :=
  writeInto codecs t (out ++ [o.kind.folder]) o.fileName o.definition fun _ =>
    .object o.kind o.fileName

/-- Writes the objects in order, up to one that is not covered. -/
def writeObjects (codecs : Codecs) (out : Path) (t : Tree) :
    List Object → Tree × Except EncodeFault (List (Object × Outcome))
  | [] => (t, .ok [])
  | o :: os =>
    match writeObject codecs out t o with
    | (after, .error f) => (after, .error f)
    | (after, .ok outcome) =>
      let (last, outcomes) := writeObjects codecs out after os
      (last, outcomes.map ((o, outcome) :: ·))

/-- The residual text goes to a file beside the folders of the kinds. -/
def writeResidual (codecs : Codecs) (out : Path) (t : Tree) (s : Text) :
    Tree × Except EncodeFault (Option Outcome) :=
  if s.isEmpty then (t, .ok none)
  else
    let name := residualName.toList
    let (after, outcome) := writeInto codecs t out name s (.residual (out ++ [name]))
    (after, outcome.map some)

/-- Writes the objects, then the residual text. -/
def write (codecs : Codecs) (out : Path) (t : Tree) (os : List Object) (residual : Text) :
    Tree × Except EncodeFault Summary :=
  match writeObjects codecs out t os with
  | (after, .error f) => (after, .error f)
  | (after, .ok outcomes) =>
    let (last, outcome) := writeResidual codecs out after residual
    (last, outcome.map (⟨outcomes, ·⟩))

end Export
end SchemaDump
