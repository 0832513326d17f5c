import SchemaDump.Text.Printable

/-! The options of the command line, and how it is used. -/
namespace SchemaDump.CommandLine

inductive Switch where
  | help | file | directory | dryRun | verbose
deriving DecidableEq, Repr

namespace Switch

def all : List Switch := [help, file, directory, dryRun, verbose]

def short : Switch → Text
  | help => ['-', 'h']
  | file => ['-', 'f']
  | directory => ['-', 'd']
  | dryRun => ['-', 'r']
  | verbose => ['-', 'v']

def long : Switch → Text
  | help => "--help".toList
  | file => "--file".toList
  | directory => "--directory".toList
  | dryRun => "--dry-run".toList
  | verbose => "--verbose".toList

def takesValue : Switch → Bool
  | file | directory => true
  | _ => false

/-- The switch in both its spellings. -/
def shown (s : Switch) : String := String.ofList (s.short ++ '/' :: s.long)

def named? (name : Text) : Option Switch := all.find? fun s => s.short = name || s.long = name

end Switch

/-- Why a command line cannot be read. -/
inductive UsageError where
  | ambiguous (argument : Text) (candidates : List Switch)
  | valueMissing (s : Switch)
  | valueIgnored (s : Switch) (value : Text)
  | unrecognised (arguments : List Text)
deriving DecidableEq, Repr

namespace UsageError

def message : UsageError → String
  | ambiguous argument candidates =>
    let names := ", ".intercalate (candidates.map fun s => String.ofList s.long)
    s!"ambiguous option: {String.ofList argument} could match {names}"
  | valueMissing s => s!"argument {s.shown}: expected one argument"
  | valueIgnored s value =>
    s!"argument {s.shown}: ignored explicit argument {String.ofList (Text.quoted value)}"
  | unrecognised arguments =>
    "unrecognized arguments: " ++ " ".intercalate (arguments.map String.ofList)

end UsageError

def program : String := "pgdump-split"

def usage : String := s!"usage: {program} [-h] [-f FILE] [-d DIRECTORY] [-r] [-v]"

def help : List String := [
  usage,
  "",
  "Splits a PostgreSQL dump file into individual object files organized by type.",
  "",
  "options:",
  "  -h, --help            show this help message and exit",
  "  -f FILE, --file FILE  path to pg_dump file (required)",
  "  -d DIRECTORY, --directory DIRECTORY",
  "                        output directory (default: 'output' in the current",
  "                        working directory)",
  "  -r, --dry-run         parse without writing files",
  "  -v, --verbose         enable debug logging",
  "",
  "examples:",
  "  pgdump-split -f dump.sql",
  "  pgdump-split -f dump.sql -d ./schemas",
  "  pgdump-split --file /path/to/dump.sql --dry-run",
  "",
  "output structure:",
  "  output/",
  "  |-- schemas/",
  "  |-- tables/",
  "  |-- views/",
  "  |-- functions/",
  "  `-- residual.sql (unparsed content)"]

/-- The two lines that report a usage error. -/
def usageLines (e : UsageError) : List String := [usage, s!"{program}: error: {e.message}"]

end SchemaDump.CommandLine
