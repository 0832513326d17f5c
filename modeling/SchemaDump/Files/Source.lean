import SchemaDump.Encoding
import SchemaDump.Files.Tree

/-! Dumps read from files. -/
namespace SchemaDump

/-- Why a dump cannot be read. -/
inductive ReadError where
  | missing (path : Path)
  | folder (path : Path)
  | denied (path : Path)
  /-- The file cannot be opened, and it cannot be told either whether it is a folder. -/
  | hidden (path : Path) (f : Fault)
  | fault (path : Path) (f : Fault)
  | undecodable (path : Path) (f : DecodeFault)
  | empty (path : Path)
deriving DecidableEq, Repr

namespace ReadError

def message : ReadError → String
  | missing p => s!"Dump file not found: {String.ofList p.render}"
  | folder p => s!"Path is a directory, not a file: {String.ofList p.render}"
  | denied p => s!"Permission denied reading: {String.ofList p.render}"
  | hidden p f => f.message p
  | fault p f => s!"Failed to read dump file: {f.message p}"
  | undecodable _ (.malformed codec byte start length defect) =>
    "Failed to read dump file: " ++ (DecodeFault.malformed codec byte start length defect).message
  | undecodable _ f => f.message
  | empty _ => "Dump file is empty"

/-- Errors that a run reports. It ends with the others as they are. -/
def isReported : ReadError → Bool
  | hidden _ _ => false
  | undecodable _ (.malformed ..) => true
  | undecodable _ _ => false
  | _ => true

end ReadError

namespace Source

/-- Line ends of all three forms as line feeds, after the text in `read`, which is reversed. -/
def lineFeedsOnto (read : Text) : Text → Text
  | [] => read.reverse
  | '\r' :: '\n' :: s => lineFeedsOnto ('\n' :: read) s
  | c :: s => lineFeedsOnto ((if c = '\r' then '\n' else c) :: read) s

def lineFeeds (s : Text) : Text := lineFeedsOnto [] s

/-- What is wrong with a dump that cannot be opened. A folder that may not be read either is called
a folder, if it can be reached. -/
def openError (t : Tree) (p : Path) (f : Fault) : ReadError :=
  if f.number = Fault.notFound.number then .missing p
  else if f.number = Fault.isFolder.number then .folder p
  else if f.isDenial then
    match t.find p with
    | .error f => .hidden p f
    | .ok there => if there = some .folder then .folder p else .denied p
  else .fault p f

/-- The text of a dump file, with line feeds at the ends of lines. It is not blank. -/
def read (t : Tree) (p : Path) (encoding : Encoding) : Except ReadError Text :=
  match t.read p with
  | .error f => .error (openError t p f)
  | .ok content =>
    match encoding.decode content with
    | .error f => .error (.undecodable p f)
    | .ok s =>
      let text := lineFeeds s
      if (Text.trim text).isEmpty then .error (.empty p) else .ok text

end Source
end SchemaDump
