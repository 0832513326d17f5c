import SchemaDump.Encoding.Utf8
import SchemaDump.Service.Address
import SchemaDump.Service.Host

/-! Authorities: hosts with their ports, and with those who call. -/
namespace SchemaDump.Service

/-- Why a target leads to no request. -/
inductive TargetFault where
  | bracket
  | notAddress (host : Text)
  | version4InBrackets
  | futureAddress
  | expands (authority : Text)
  | portNotWhole (port : Text)
  | portDigits (count : Nat)
  | portTooLarge
  | notHost (f : HostFault)
deriving DecidableEq, Repr

namespace TargetFault

def message : TargetFault → String
  | bracket => "Invalid IPv6 URL"
  | notAddress host =>
    String.ofList (Text.quoted host) ++ " does not appear to be an IPv4 or IPv6 address"
  | version4InBrackets => "An IPv4 address cannot be in brackets"
  | futureAddress => "IPvFuture address is invalid"
  | expands authority =>
    s!"netloc '{String.ofList authority}' contains invalid characters under NFKC normalization"
  | portNotWhole port =>
    "Port could not be cast to integer value as " ++ String.ofList (Text.quoted port)
  | portDigits count =>
    s!"Exceeds the limit ({Json.maxDigits} digits) for integer string conversion: " ++
      s!"value has {count} digits; use sys.set_int_max_str_digits() to increase the limit"
  | portTooLarge => "Port out of range 0-65535"
  | notHost f => f.message

end TargetFault

/-- The parts of an authority; those that are missing are empty. -/
structure Authority where
  user : Text
  password : Text
  host : Text
  port : Text
deriving DecidableEq, Repr

namespace Authority

/-- What follows the first `c`. -/
def after (c : Char) (s : Text) : Text := (s.dropWhile (· ≠ c)).drop 1

def upTo (c : Char) (s : Text) : Text := s.takeWhile (· ≠ c)

/-- Characters whose compatible form has a mark that ends a part of a target. -/
def expanding : Text :=
  ['\u2047', '\u2048', '\u2049', '\u2100', '\u2101', '\u2105', '\u2106', '\u2A74', '\uFE13',
   '\uFE16', '\uFE55', '\uFE56', '\uFE5F', '\uFE6B', '\uFF03', '\uFF0F', '\uFF1A', '\uFF1F',
   '\uFF20']

/-- What is wrong with a host in brackets. -/
def bracketFault? (host : Text) : Option TargetFault :=
  if host.head? = some 'v' then
    if Address.isFuture host then none else some .futureAddress
  else if Address.isVersion4 host then some .version4InBrackets
  else if Address.isZoned host then none
  else some (.notAddress host)

/-- What is wrong with an authority as it is written. -/
def fault? (s : Text) : Option TargetFault :=
  let brackets :=
    if '[' ∈ s ∧ ']' ∈ s then bracketFault? (upTo ']' (after '[' s))
    else if '[' ∈ s ∨ ']' ∈ s then some .bracket
    else none
  brackets <|> if s.any (· ∈ expanding) then some (.expands s) else none

def ofText (s : Text) : Authority :=
  let (caller, place) := match Text.splitLast '@' s with
    | some (front, back) => (front, back.drop 1)
    | none => ([], s)
  let (host, port) :=
    if '[' ∈ place then
      let inside := after '[' place
      (upTo ']' inside, after ':' (after ']' inside))
    else (upTo ':' place, after ':' place)
  { user := upTo ':' caller, password := after ':' caller, host := host, port := port }

/-- A port by its number. A missing one is 0. -/
def portNumber (port : Text) : Except TargetFault Nat :=
  if !port.all Char.isDigit then .error (.portNotWhole port)
  else if Json.maxDigits < port.length then .error (.portDigits port.length)
  else
    let n := port.foldl (fun n c => 10 * n + (c.toNat - '0'.toNat)) 0
    if n ≤ 65535 then .ok n else .error .portTooLarge

def isKept (c : Char) : Bool := c.isAlphanum || c ∈ "_.-~%!$&'()*+,;=".toList

/-- A text with the bytes of all but a few characters in digits. -/
def escaped (s : Text) : Text :=
  s.flatMap fun c =>
    if isKept c then [c] else (Utf8.encode [c]).flatMap fun b => '%' :: Text.hex 2 b.toNat

/-- The host in small letters, the zone of an address apart. -/
def smallHost (a : Authority) : Text :=
  (upTo '%' a.host).map Char.toLower ++ a.host.dropWhile (· ≠ '%')

/-- An authority in its usual form: small letters, no port 0, and only parts that are not empty. -/
def normal (a : Authority) : Except TargetFault Text :=
  let host := a.smallHost
  match if host.isEmpty then none else Host.fault? host with
  | some f => .error (.notHost f)
  | none =>
    (portNumber a.port).map fun n =>
      let place := if ':' ∈ host then '[' :: host ++ [']'] else host
      let port := if n = 0 then [] else ':' :: Nat.toDigits 10 n
      let password := if a.password.isEmpty then [] else ':' :: escaped a.password
      let caller := if a.user.isEmpty then [] else escaped a.user ++ password ++ ['@']
      caller ++ place ++ port

end Authority
end SchemaDump.Service
