import SchemaDump.Json

/-! JSON documents read from text. -/
namespace SchemaDump.Json

/-- What may stand between the tokens of a document. -/
def isSpace (c : Char) : Bool := c = ' ' || c = '\t' || c = '\n' || c = '\r'

def skip (s : Text) : Text := s.dropWhile isSpace

def hexDigit? (c : Char) : Option Nat :=
  if c.isDigit then some (c.toNat - '0'.toNat)
  else if 'a' ≤ c ∧ c ≤ 'f' then some (c.toNat - 'a'.toNat + 10)
  else if 'A' ≤ c ∧ c ≤ 'F' then some (c.toNat - 'A'.toNat + 10)
  else none

/-- Four hexadecimal digits. -/
def unit? : Text → Option (Nat × Text)
  | a :: b :: c :: d :: s => do
    let high := (← hexDigit? a) * 16 + (← hexDigit? b)
    let low := (← hexDigit? c) * 16 + (← hexDigit? d)
    return (high * 256 + low, s)
  | _ => none

/-- The character of a UTF-16 unit. Half a pair of surrogates is replaced. -/
def character (n : Nat) : Char :=
  if Utf16.isHigh n || Utf16.isLow n then '\uFFFD' else Char.ofNat n

/-- A character by its number, after the backslash and the `u`. -/
def escapedUnit? (s : Text) : Option (Char × Text) := do
  let (n, rest) ← unit? s
  match rest with
  | '\\' :: 'u' :: t =>
    if Utf16.isHigh n then
      let (m, rest') ← unit? t
      if Utf16.isLow m then return (Utf16.joined n m, rest')
    return (character n, rest)
  | _ => return (character n, rest)

def escaped? : Text → Option (Char × Text)
  | '"' :: s => some ('"', s)
  | '\\' :: s => some ('\\', s)
  | '/' :: s => some ('/', s)
  | 'b' :: s => some ('\x08', s)
  | 'f' :: s => some ('\x0c', s)
  | 'n' :: s => some ('\n', s)
  | 'r' :: s => some ('\r', s)
  | 't' :: s => some ('\t', s)
  | 'u' :: s => escapedUnit? s
  | _ => none

/-- The characters of a string up to its closing quote, after those in `read`, which are reversed,
in a text that has fewer than `n` characters. Control characters must be escaped. -/
def characters (read : Text) : Nat → Text → Option (Text × Text)
  | 0, _ => none
  | _ + 1, [] => none
  | n + 1, c :: s =>
    if c = '"' then some (read.reverse, s)
    else if c = '\\' then
      match escaped? s with
      | some (d, rest) => characters (d :: read) n rest
      | none => none
    else if c.toNat < 0x20 then none
    else characters (c :: read) n s

/-- An integer may have this many digits. -/
def maxDigits : Nat := 4300

def fraction (s : Text) : Text × Text :=
  match s with
  | '.' :: t =>
    let digits := t.takeWhile Char.isDigit
    if digits.isEmpty then ([], s) else ('.' :: digits, t.dropWhile Char.isDigit)
  | _ => ([], s)

def exponent (s : Text) : Text × Text :=
  match s with
  | e :: t =>
    if e = 'e' ∨ e = 'E' then
      let sign := (t.take 1).takeWhile fun c => c = '+' || c = '-'
      let digits := (t.drop sign.length).takeWhile Char.isDigit
      if digits.isEmpty then ([], s)
      else (e :: sign ++ digits, (t.drop sign.length).dropWhile Char.isDigit)
    else ([], s)
  | [] => ([], s)

/-- A number without its sign: no zeros in front, and no more than `maxDigits` digits without a
fraction or an exponent. -/
def unsigned? (s : Text) : Option (Text × Text) :=
  let whole := match s with
    | '0' :: _ => ['0']
    | _ => s.takeWhile Char.isDigit
  if whole.isEmpty then none
  else
    let (f, afterFraction) := fraction (s.drop whole.length)
    let (e, rest) := exponent afterFraction
    if f.isEmpty && e.isEmpty && maxDigits < whole.length then none
    else some (whole ++ f ++ e, rest)

/-- `s` after `word`, if it starts with it. -/
def after? (word : String) (s : Text) : Option Text :=
  if word.toList.isPrefixOf s then some (s.drop word.length) else none

/-- Literals, infinite numbers and the number that is none, and finite numbers. -/
def scalar? (s : Text) : Option (Json × Text) :=
  (after? "null" s).map (null, ·) <|>
  (after? "true" s).map (bool true, ·) <|>
  (after? "false" s).map (bool false, ·) <|>
  (after? "NaN" s).map (number "NaN".toList, ·) <|>
  (after? "Infinity" s).map (number "Infinity".toList, ·) <|>
  (after? "-Infinity" s).map (number "-Infinity".toList, ·) <|>
  match s with
  | '-' :: t => (unsigned? t).map fun (digits, rest) => (number ('-' :: digits), rest)
  | _ => (unsigned? s).map fun (digits, rest) => (number digits, rest)

mutual

/-- A value at the start of a text that has fewer than `n` characters. -/
def value? : Nat → Text → Option (Json × Text)
  | 0, _ => none
  | n + 1, s =>
    match s with
    | '"' :: t => (characters [] n t).map fun (read, rest) => (string read, rest)
    | '[' :: t =>
      match skip t with
      | ']' :: rest => some (array [], rest)
      | t => (items? n t).map fun (vs, rest) => (array vs, rest)
    | '{' :: t =>
      match skip t with
      | '}' :: rest => some (object [], rest)
      | t => (fields? n t).map fun (fs, rest) => (object fs, rest)
    | _ => scalar? s

/-- One or more values and the bracket that closes them. -/
def items? : Nat → Text → Option (List Json × Text)
  | 0, _ => none
  | n + 1, s =>
    match value? n s with
    | none => none
    | some (v, rest) =>
      match skip rest with
      | ',' :: t => (items? n (skip t)).map fun (vs, rest') => (v :: vs, rest')
      | ']' :: t => some ([v], t)
      | _ => none

/-- One or more named values and the brace that closes them. -/
def fields? : Nat → Text → Option (List (Text × Json) × Text)
  | 0, _ => none
  | n + 1, s =>
    match s with
    | '"' :: t =>
      match characters [] n t with
      | none => none
      | some (name, rest) =>
        match skip rest with
        | ':' :: t =>
          match value? n (skip t) with
          | none => none
          | some (v, rest) =>
            match skip rest with
            | ',' :: t => (fields? n (skip t)).map fun (fs, rest') => ((name, v) :: fs, rest')
            | '}' :: t => some ([(name, v)], t)
            | _ => none
        | _ => none
    | _ => none

end

/-- The value of a whole document. -/
def parse? (s : Text) : Option Json :=
  match value? (s.length + 1) (skip s) with
  | some (v, rest) => if (skip rest).isEmpty then some v else none
  | none => none

end SchemaDump.Json
