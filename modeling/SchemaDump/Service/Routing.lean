import SchemaDump.Service
import SchemaDump.Service.Target

/-! The framework that is run: requests as a client sends them, led to the service or elsewhere. The
service relies on no more of it than that it serves the routes. -/
namespace SchemaDump.Service

structure Request where
  method : Text
  location : Location
  body : Bytes := []

/-- What the paths of the service lead to. -/
inductive Place where
  | dumps
  /-- A place for files. There are none. -/
  | files
deriving DecidableEq, Repr

namespace Place

def methods : Place → List String
  | dumps => ["GET", "HEAD", "POST", "OPTIONS"]
  | files => ["GET", "HEAD", "OPTIONS"]

/-- The methods that everything allows that answers at the place. -/
def commonMethods : Place → List String
  | dumps => ["OPTIONS"]
  | files => ["GET", "HEAD", "OPTIONS"]

def answer (p : Place) (method : String) (body : Bytes) : Answer :=
  if method ∉ p.methods then ⟨405, none⟩
  else match p, method with
    | dumps, "POST" => split body
    | dumps, "HEAD" => ⟨200, some []⟩
    | dumps, "OPTIONS" => options
    | dumps, _ => health
    | files, "OPTIONS" => ⟨200, none⟩
    | files, _ => ⟨404, none⟩

/-- There are no sockets. A method that would not do without one either is the graver fault. -/
def answerSocket (p : Place) (method : String) : Answer :=
  if method ∈ p.commonMethods then ⟨400, none⟩ else ⟨405, none⟩

/-- The paths that lead to dumps. -/
def dumpPaths : List Bytes := paths.map fun p => Utf8.encode p.toList

def fileFolder : Bytes := Utf8.encode "/static/".toList

/-- The name of a file begins with no slash and goes on without line feeds. -/
def isFileName : Bytes → Bool
  | [] => false
  | b :: s => b ≠ Target.slash && 0x0A ∉ s

def ofPath? (path : Bytes) : Option Place :=
  if path ∈ dumpPaths then some dumps
  else if fileFolder.isPrefixOf path && isFileName (path.drop fileFolder.length) then some files
  else none

end Place

/-- The answer at an empty path sends on to the root, and one at a path with slashes side by side
to the path without them, if that allows the method. -/
def answerOnward (path : Bytes) (method : String) : Answer :=
  if path.isEmpty then ⟨if method ∈ Place.dumps.methods then 308 else 404, none⟩
  else
    match Place.ofPath? (Target.merged path) with
    | some p => ⟨if method ∈ p.methods then 308 else 405, none⟩
    | none => ⟨404, none⟩

/-- The answer for a socket. Nothing sends on to one. -/
def answerSocket (path : Bytes) (method : String) : Answer :=
  match Place.ofPath? (Target.merged path) with
  | some p => p.answerSocket method
  | none => ⟨404, none⟩

def answer (r : Request) : Answer :=
  let path := r.location.path
  let method := String.ofList (r.method.flatMap Text.capitals)
  if !r.location.isNamed then ⟨400, none⟩
  else if r.location.isSocket then answerSocket path method
  else
    match Place.ofPath? path with
    | some p => p.answer method r.body
    | none => answerOnward path method

/-- The framework as seen by a client that gives a target for the path. One that leads to no request
is refused. -/
def client : Framework := fun method target body =>
  match Target.locate target.toList with
  | .ok location => answer ⟨method.toList, location, body⟩
  | .error _ => ⟨400, none⟩

end SchemaDump.Service
