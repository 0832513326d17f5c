import SchemaDump.Encoding.Utf8

/-! File trees: paths, what stands at them, and what the operating system refuses there.

Paths are those of POSIX: names with slashes between them, where small and capital letters differ.
There are no links, and no nodes but folders and files. A limit on names counts bytes of UTF-8. What
is refused at a path stays so while a run goes on, no one else changes the tree, and there is room for
all that is written into a file that has been opened. -/
namespace SchemaDump

/-- The names on the way from the root. -/
abbrev Path := List Text

namespace Path

def render (p : Path) : Text := if p.isEmpty then ['/'] else p.flatMap ('/' :: ·)

/-- The path after one more name. -/
def step (p : Path) (name : Text) : Path :=
  if name = [] ∨ name = ['.'] then p
  else if name = ['.', '.'] then p.dropLast
  else p ++ [name]

/-- The path that a text names, seen from the folder `base`. It takes no file tree: a name that is
left again by two dots need not exist. There is no path with a NUL. -/
def resolve? (base : Path) (s : Text) : Option Path :=
  if '\x00' ∈ s then none
  else some ((s.splitOn '/').foldl step (if s.head? = some '/' then [] else base))

/-- How many bytes a name may have. -/
def nameLimit : Nat := 255

def fits (name : Text) : Bool := (Utf8.encode name).length ≤ nameLimit

/-- How many bytes a whole path may have. -/
def limit : Nat := 4095

def isShort (p : Path) : Bool := (Utf8.encode p.render).length ≤ limit

end Path

inductive Node where
  | folder
  | file (content : Bytes)
deriving DecidableEq, Repr

/-- Why an operation on a path fails, as the operating system numbers and words it. -/
structure Fault where
  number : Nat
  reason : String
deriving DecidableEq, Repr

namespace Fault

def notPermitted : Fault := ⟨1, "Operation not permitted"⟩
def notFound : Fault := ⟨2, "No such file or directory"⟩
def denied : Fault := ⟨13, "Permission denied"⟩
def notFolder : Fault := ⟨20, "Not a directory"⟩
def isFolder : Fault := ⟨21, "Is a directory"⟩
def nameTooLong : Fault := ⟨36, "File name too long"⟩

/-- Whoever asks has no right to it. -/
def isDenial (f : Fault) : Bool := f.number ∈ [notPermitted.number, denied.number]

def message (f : Fault) (p : Path) : String :=
  let path := String.ofList (Text.quoted p.render)
  s!"[Errno {f.number}] {f.reason}: {path}"

end Fault

/-- What is asked of a path. -/
inductive Access where
  /-- To pass the folder, on the way to what is in it. -/
  | pass
  /-- To make something in the folder. -/
  | add
  /-- To open the file, or the folder, for reading. -/
  | read
  /-- To open the file for writing, also if it is not there yet. -/
  | write
deriving DecidableEq, Repr

/-- The nodes of a file tree by their paths, the root apart, and what is refused at which paths, and
why: for lack of rights, or since nothing can be written there. -/
structure Tree where
  nodes : List (Path × Node) := []
  refusals : List ((Access × Path) × Fault) := []
deriving DecidableEq, Repr

namespace Tree

/-- What stands at a path. The root is a folder. -/
def get? (t : Tree) (p : Path) : Option Node :=
  if p = [] then some .folder else t.nodes.lookup p

def refusal? (t : Tree) (a : Access) (p : Path) : Option Fault := t.refusals.lookup (a, p)

/-- The tree with `n` at `p`, whatever stood there. -/
def put (t : Tree) (p : Path) (n : Node) : Tree :=
  { t with nodes := (p, n) :: t.nodes.filter fun e => e.1 != p }

/-- The fault met first on the way through the folders `names` below `base`. -/
def wayFault? (t : Tree) (base : Path) : Path → Option Fault
  | [] => none
  | name :: names =>
    if !Path.fits name then some .nameTooLong
    else match t.get? (base ++ [name]) with
      | none => some .notFound
      | some (.file _) => some .notFolder
      | some .folder =>
        (t.refusal? .pass (base ++ [name])).or (wayFault? t (base ++ [name]) names)

/-- What stands at a path that can be reached and is not too long, nor is its last name. -/
def find (t : Tree) (p : Path) : Except Fault (Option Node) :=
  if !p.isShort then .error .nameTooLong
  else match t.wayFault? [] p.dropLast with
    | some f => .error f
    | none => if p.getLast?.all Path.fits then .ok (t.get? p) else .error .nameTooLong

def read (t : Tree) (p : Path) : Except Fault Bytes :=
  match t.find p with
  | .error f => .error f
  | .ok none => .error .notFound
  | .ok (some n) =>
    match t.refusal? .read p, n with
    | some f, _ => .error f
    | none, .folder => .error .isFolder
    | none, .file content => .ok content

/-- Why the file at `p`, where `there` stands, cannot be opened for writing. What is not there has
to be made in its folder. -/
def writeFault? (t : Tree) (p : Path) (there : Option Node) : Option Fault :=
  match there with
  | some .folder => some .isFolder
  | some (.file _) => t.refusal? .write p
  | none => (t.refusal? .add p.dropLast).or (t.refusal? .write p)

/-- The tree with `content` in the file at `p`, which is made if there is none. -/
def write (t : Tree) (p : Path) (content : Bytes) : Except Fault Tree :=
  match t.find p with
  | .error f => .error f
  | .ok there =>
    match t.writeFault? p there with
    | some f => .error f
    | none => .ok (t.put p (.file content))

/-- The folder lets through whoever goes on to what is in it. The root always does. -/
def isPassable (t : Tree) (p : Path) : Bool := p.isEmpty || (t.refusal? .pass p).isNone

/-- Makes the folders `names` below `base` that are not there, up to one that cannot be made, and
says whether all are there in the end. -/
def makeBelow (t : Tree) (base : Path) : Path → Tree × Bool
  | [] => (t, true)
  | name :: names =>
    let p := base ++ [name]
    if !t.isPassable base then (t, false)
    else match t.get? p with
      | some .folder => makeBelow t p names
      | some (.file _) => (t, false)
      | none =>
        if Path.fits name && (t.refusal? .add base).isNone then
          makeBelow (t.put p .folder) p names
        else (t, false)

/-- Makes the folder at `p` and those on the way to it, but none if the path is too long. -/
def makeFolders (t : Tree) (p : Path) : Tree × Bool :=
  if p.isShort then t.makeBelow [] p else (t, false)

/-- A path below a folder, as it is shown: with a slash after the name of a folder. -/
def shown (names : Path) (n : Node) : Text :=
  ['/'].intercalate names ++ if n = .folder then ['/'] else []

/-- Everything below a folder, by the paths from there, in order of code points. -/
def listing (t : Tree) (base : Path) : List (Text × Node) :=
  let below := t.nodes.filterMap fun (p, n) =>
    if base.isPrefixOf p && p ≠ base then some (shown (p.drop base.length) n, n) else none
  below.mergeSort fun a b => Text.le a.1 b.1

end Tree
end SchemaDump
