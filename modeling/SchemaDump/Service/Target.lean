import SchemaDump.Service.Authority

/-! Targets of requests. -/
namespace SchemaDump.Service

/-- A target, less its query and its fragment. -/
structure Target where
  scheme : Text
  authority : Text
  path : Text
deriving DecidableEq, Repr

/-- What a request asks for. -/
structure Location where
  /-- The host is a name that can be looked up. -/
  isNamed : Bool := true
  isSocket : Bool := false
  path : Bytes
deriving DecidableEq, Repr

namespace Target

/-- A target less the controls and spaces before it, and less its tabulators and line ends. -/
def clean (s : Text) : Text := (s.dropWhile (· ≤ ' ')).filter fun c => c ∉ ['\t', '\n', '\r']

def inScheme (c : Char) : Bool := c.isAlphanum || c ∈ ['+', '-', '.']

/-- The scheme of a target, which begins with a letter, in small letters; and what follows it. -/
def cutScheme (s : Text) : Text × Text :=
  match s.head?, s.dropWhile inScheme with
  | some c, ':' :: rest =>
    if c.isAlpha then ((s.takeWhile inScheme).map Char.toLower, rest) else ([], s)
  | _, _ => ([], s)

def inAuthority (c : Char) : Bool := c ∉ ['/', '?', '#']

def inPath (c : Char) : Bool := c ∉ ['?', '#']

def isSocket (t : Target) : Bool := t.scheme = "ws".toList || t.scheme = "wss".toList

def ofText (s : Text) : Except TargetFault Target :=
  let (scheme, rest) := cutScheme (clean s)
  match rest with
  | '/' :: '/' :: t =>
    let authority := t.takeWhile inAuthority
    match Authority.fault? authority with
    | some f => .error f
    | none => .ok ⟨scheme, authority, (t.dropWhile inAuthority).takeWhile inPath⟩
  | _ => .ok ⟨scheme, [], rest.takeWhile inPath⟩

/-- The text of a target, its authority in the usual form. -/
def normal (t : Target) : Except TargetFault Text :=
  (Authority.ofText t.authority).normal.map fun authority =>
    let rest := if authority.isEmpty then t.path else '/' :: '/' :: authority ++ t.path
    if t.scheme.isEmpty then rest else t.scheme ++ ':' :: rest

/-- A byte by its two hexadecimal digits. -/
def byte? (a b : Char) : Option UInt8 := do
  return UInt8.ofNat ((← Json.hexDigit? a) * 16 + (← Json.hexDigit? b))

/-- A text as bytes, with those that are written as percent signs and digits. -/
def bytes : Text → Bytes
  | '%' :: a :: b :: s =>
    match byte? a b with
    | some n => n :: bytes s
    | none => 0x25 :: bytes (a :: b :: s)
  | c :: s => Utf8.encode [c] ++ bytes s
  | [] => []

def slash : UInt8 := 0x2F

/-- The path of a request. However many slashes it begins with, they count as one. -/
def requestPath (s : Text) : Bytes :=
  if s.isEmpty then [] else slash :: (bytes s).dropWhile (· = slash)

/-- What a target asks for. The client takes the authority off it, and looks at the path that is
left as a target again: once for the query, and once to bring it into the usual form. -/
def locate (target : Text) : Except TargetFault Location := do
  let outer ← ofText target
  let inner ← ofText outer.path
  let path ← (← ofText inner.path).normal
  let authority ← (Authority.ofText outer.authority).normal
  return {
    isNamed := Host.fits (Authority.upTo ':' authority)
    isSocket := outer.isSocket
    path := requestPath path }

/-- A path with one slash for each run of them. -/
def merged : Bytes → Bytes
  | [] => []
  | b :: s => if b = slash ∧ s.head? = some slash then merged s else b :: merged s

end Target
end SchemaDump.Service
