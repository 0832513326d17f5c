import SchemaDump.CommandLine.Usage
import SchemaDump.Text.Word

/-! Options read from the arguments of the command line. -/
namespace SchemaDump.CommandLine

/-- What one argument is. -/
inductive Argument where
  /-- A switch, with the value that stands in the same argument. -/
  | switch (s : Switch) (isShort : Bool) (value : Option Text)
  | plain
  /-- Neither a switch nor fit to be the value of one. -/
  | unknown
deriving DecidableEq, Repr

namespace Argument

/-- A minus sign and a decimal number; a line feed may follow. -/
def isNegativeNumber (argument : Text) : Bool :=
  match argument with
  | '-' :: s =>
    let s := if s.getLast? = some '\n' then s.dropLast else s
    match s.dropWhile Text.isDigit with
    | [] => !s.isEmpty
    | '.' :: t => !t.isEmpty && t.all Text.isDigit
    | _ => false
  | _ => false

/-- A text before its first equals sign, and after it if it has one. -/
def cutValue (s : Text) : Text × Option Text :=
  match s.dropWhile (· ≠ '=') with
  | [] => (s, none)
  | _ :: value => (s.takeWhile (· ≠ '='), some value)

/-- The switches that an argument may be short for. A long switch may be cut short as long as no
other begins likewise; a short one may have its value, or more short ones, right after it. -/
def candidates (argument : Text) : List (Switch × Argument) :=
  match argument with
  | '-' :: '-' :: _ =>
    let (name, value) := cutValue argument
    (Switch.all.filter fun s => name.isPrefixOf s.long).map fun s => (s, switch s false value)
  | '-' :: c :: value =>
    (Switch.all.filter fun s => s.short = ['-', c]).map fun s => (s, switch s true (some value))
  | _ => []

def isShort (name : Text) : Bool := name.length = 2

/-- What an argument is that starts with a dash and has more than that. -/
def ofDashed (argument : Text) : Except UsageError Argument :=
  match Switch.named? argument with
  | some s => .ok (switch s (isShort argument) none)
  | none =>
    let (name, value) := cutValue argument
    match value, Switch.named? name with
    | some _, some s => .ok (switch s (isShort name) value)
    | _, _ =>
      match candidates argument with
      | [(_, found)] => .ok found
      | [] => .ok (if isNegativeNumber argument || ' ' ∈ argument then plain else unknown)
      | several => .error (.ambiguous argument (several.map Prod.fst))

def ofText (argument : Text) : Except UsageError Argument :=
  match argument with
  | '-' :: _ :: _ => ofDashed argument
  | _ => .ok plain

/-- What each argument is. After two dashes there are no switches. -/
def ofTexts : List Text → Except UsageError (List (Text × Argument))
  | [] => .ok []
  | argument :: arguments =>
    if argument = ['-', '-'] then
      .ok ((argument, unknown) :: arguments.map (·, plain))
    else do
      let first ← ofText argument
      return (argument, first) :: (← ofTexts arguments)

end Argument

/-- A switch that is set, with its value if it has one. -/
structure Setting where
  switch : Switch
  value : Text := []
deriving DecidableEq, Repr

/-- The settings of one argument. The last switch may be left without the value that it takes. -/
structure Settings where
  settings : List Setting
  waiting : Option Switch := none
deriving DecidableEq, Repr

namespace Settings

/-- A value as it is kept: two dashes are none. -/
def kept (value : Text) : Text := if value = ['-', '-'] then [] else value

/-- The settings of a switch of one letter that takes no value, and of the letters after it. -/
def ofLetters (s : Switch) : Text → Except UsageError Settings
  | [] => .ok ⟨[⟨s, []⟩], none⟩
  | c :: letters =>
    match Switch.named? ['-', c] with
    | none => .error (.valueIgnored s (c :: letters))
    | some t =>
      if t.takesValue then
        if letters.isEmpty then .ok ⟨[⟨s, []⟩], some t⟩
        else .ok ⟨[⟨s, []⟩, ⟨t, kept letters⟩], none⟩
      else
        match ofLetters t letters with
        | .ok more => .ok { more with settings := ⟨s, []⟩ :: more.settings }
        | .error e => .error e

def ofSwitch (s : Switch) (isShort : Bool) (value : Option Text) : Except UsageError Settings :=
  match s.takesValue, value with
  | true, some v => .ok ⟨[⟨s, kept v⟩], none⟩
  | true, none => .ok ⟨[], some s⟩
  | false, none => .ok ⟨[⟨s, []⟩], none⟩
  | false, some v => if isShort && !v.isEmpty then ofLetters s v else .error (.valueIgnored s v)

end Settings

/-- What the command line asks for. -/
structure Options where
  file : Text := []
  directory : Text := "output".toList
  dryRun : Bool := false
  verbose : Bool := false
deriving DecidableEq, Repr

/-- Why there is nothing to run. -/
inductive Stop where
  | help
  | usage (e : UsageError)
  | fileMissing
  | directoryEmpty
deriving DecidableEq, Repr

namespace Stop

def message : Stop → String
  | help => ""
  | usage e => e.message
  | fileMissing => "Missing required argument: --file"
  | directoryEmpty => "Output directory must not be empty"

end Stop

namespace Options

/-- Settings take effect in order; the one for help ends it all. -/
def set (o : Options) : List Setting → Except Stop Options
  | [] => .ok o
  | ⟨.help, _⟩ :: _ => .error .help
  | ⟨.file, value⟩ :: settings => set { o with file := value } settings
  | ⟨.directory, value⟩ :: settings => set { o with directory := value } settings
  | ⟨.dryRun, _⟩ :: settings => set { o with dryRun := true } settings
  | ⟨.verbose, _⟩ :: settings => set { o with verbose := true } settings

/-- The options after the arguments, and the arguments that are no part of them. -/
def read (o : Options) (extra : List Text) :
    List (Text × Argument) → Except Stop (Options × List Text)
  | [] => .ok (o, extra)
  | (_, .switch s isShort value) :: rest =>
    match Settings.ofSwitch s isShort value with
    | .error e => .error (.usage e)
    | .ok ⟨settings, none⟩ =>
      match o.set settings with
      | .error stop => .error stop
      | .ok o => read o extra rest
    | .ok ⟨settings, some t⟩ =>
      match rest with
      | (next, .plain) :: rest =>
        match o.set (settings ++ [⟨t, next⟩]) with
        | .error stop => .error stop
        | .ok o => read o extra rest
      | _ => .error (.usage (.valueMissing t))
  | (argument, _) :: rest => read o (extra ++ [argument]) rest

def parse (arguments : List Text) : Except Stop Options :=
  match Argument.ofTexts arguments with
  | .error e => .error (.usage e)
  | .ok read =>
    match Options.read {} [] read with
    | .error stop => .error stop
    | .ok (o, extra) =>
      if !extra.isEmpty then .error (.usage (.unrecognised extra))
      else if o.file.isEmpty then .error .fileMissing
      else if o.directory.isEmpty then .error .directoryEmpty
      else .ok o

end Options
end SchemaDump.CommandLine
