import SchemaDump.Encoding.Utf16

/-! JSON values, and their text in ASCII. -/
namespace SchemaDump

/-- A JSON value. A number is kept as it is written. -/
inductive Json where
  | null
  | bool (b : Bool)
  | number (digits : Text)
  | string (s : Text)
  | array (vs : List Json)
  | object (fields : List (Text × Json))

namespace Json

/-- The value of the last field of this name. -/
def field? (name : Text) : Json → Option Json
  | object fields => (fields.reverse.find? fun f => f.1 = name).map Prod.snd
  | _ => none

def ofNat (n : Nat) : Json := number (Nat.toDigits 10 n)

def optional (f : α → Json) : Option α → Json
  | some a => f a
  | none => null

/-- A UTF-16 unit in a string. -/
def unit (n : Nat) : Text := '\\' :: 'u' :: Text.hex 4 n

/-- One character of a string: printable ASCII as it is, and all else escaped. -/
def renderChar (c : Char) : Text :=
  if c = '"' ∨ c = '\\' then ['\\', c]
  else if ' ' ≤ c ∧ c ≤ '~' then [c]
  else if c = '\n' then ['\\', 'n']
  else if c = '\r' then ['\\', 'r']
  else if c = '\t' then ['\\', 't']
  else if c = '\x08' then ['\\', 'b']
  else if c = '\x0c' then ['\\', 'f']
  else (Utf16.units c).flatMap unit

def renderString (s : Text) : Text := '"' :: s.flatMap renderChar ++ ['"']

mutual

def render : Json → Text
  | null => "null".toList
  | bool b => if b then "true".toList else "false".toList
  | number digits => digits
  | string s => renderString s
  | array vs => '[' :: renderItems vs ++ [']']
  | object fields => '{' :: renderFields fields ++ ['}']

def renderItems : List Json → Text
  | [] => []
  | [v] => render v
  | v :: vs => render v ++ ',' :: ' ' :: renderItems vs

def renderFields : List (Text × Json) → Text
  | [] => []
  | [(name, v)] => renderString name ++ ':' :: ' ' :: render v
  | (name, v) :: fields =>
    renderString name ++ ':' :: ' ' :: render v ++ ',' :: ' ' :: renderFields fields

end

end Json
end SchemaDump
