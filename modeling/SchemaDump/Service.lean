import SchemaDump.Files.Export
import SchemaDump.Json.Bytes

/-! Dumps taken apart over HTTP: the views, and the routes that lead to them. What leads a request
to its route is a web framework. It is not part of the service but a parameter of what is said about
it. -/
namespace SchemaDump.Service

/-- An answer; only JSON answers have a body that matters. -/
structure Answer where
  status : Nat
  json : Option Text := none
deriving DecidableEq, Repr

/-- Any page may call, with these methods and headers. -/
def crossOrigin : List String := ["*", "GET,POST,OPTIONS", "Content-Type, Authorization"]

/-- Why a request is refused. -/
inductive Refusal where
  | notJson | notObject | noDump
deriving DecidableEq, Repr

namespace Refusal

def message : Refusal → String
  | notJson => "Invalid JSON"
  | notObject => "JSON object expected"
  | noDump => "No dump provided (use `sql`)"

end Refusal

def named (fields : List (String × Json)) : Json :=
  .object (fields.map fun (name, v) => (name.toList, v))

def texts (ts : List Text) : Json := .array (ts.map .string)

def objectJson (o : Object) : Json := named [
  ("kind", .string o.kind.name.toList),
  ("schema", .string o.schema),
  ("name", .string o.name),
  ("qualified_name", Json.optional .string o.qualifiedName),
  ("path", .string (['/'].intercalate o.path)),
  ("definition", .string o.definition),
  ("sequences", Json.optional texts o.sequences),
  ("constraints", Json.optional texts o.constraints),
  ("indexes", Json.optional texts o.indexes)]

def dumpJson (d : Dump) : Json := named [
  ("objects", .array (d.objects.map objectJson)),
  ("residual", .string d.residual),
  ("summary", named ((Object.counts d.objects).map fun (k, n) => (k.name, Json.ofNat n)))]

/-- The dump in a body: the last `sql` field of its object, if that is a text and not blank. -/
def dumpText (body : Bytes) : Except Refusal Text :=
  match Json.ofBytes? body with
  | none | some .null => .error .notJson
  | some (.object fields) =>
    match (Json.object fields).field? "sql".toList with
    | some (.string s) => if (Text.trim s).isEmpty then .error .noDump else .ok s
    | _ => .error .noDump
  | some _ => .error .notObject

def split (body : Bytes) : Answer :=
  match dumpText body with
  | .ok s => ⟨200, some (dumpJson (Dump.parse s)).render⟩
  | .error refusal => ⟨400, some (named [("error", .string refusal.message.toList)]).render⟩

def health : Answer := ⟨200, some (named [("ok", .bool true)]).render⟩

def options : Answer := ⟨204, none⟩

/-- What answers requests for a path by a method, by their bodies. -/
structure Route where
  path : String
  method : String
  view : Bytes → Answer

/-- The paths at which a dump is taken. -/
def paths : List String := ["/", "/api/split"]

def routes : List Route := paths.flatMap fun path => [
  ⟨path, "OPTIONS", fun _ => options⟩,
  ⟨path, "GET", fun _ => health⟩,
  ⟨path, "POST", split⟩]

/-- A web framework: how it answers a request by its method, its path and its body. -/
abbrev Framework := String → String → Bytes → Answer

/-- A request by the method of a route and for its path is answered by its view. -/
def Framework.Serves (framework : Framework) : Prop :=
  ∀ route ∈ routes, ∀ body, framework route.method route.path body = route.view body

end SchemaDump.Service
