import SchemaDump.CommandLine.Options
import SchemaDump.Files.Export
import SchemaDump.Files.Source
import SchemaDump.Report

/-! Runs of the program on a file tree, whose names are in UTF-8. There is memory for all that is read,
and no path is so long that the folders on the way could not be made one within the other. -/
namespace SchemaDump.CommandLine

/-- A line of the log. -/
inductive Line where
  | plain (s : String)
  | processing (file : Path)
  | reading
  | size (bytes : Nat)
  | parsing
  | note (n : Note)
  | parsed (objects : Nat)
  | kinds
  | kind (s : String)
  | residual (found : Bool)
  | dryRun
  | writing (folder : Path)
  | notWritten (label : String) (e : WriteError)
  | written (objects : Nat)
  | completed
  | errors (count : Nat)
  | error (label : String) (e : WriteError)
  | failure (message : String)
  | hint
deriving DecidableEq, Repr

namespace Line

/-- Lines that are logged only on request. -/
def isDetail : Line → Bool
  | note _ | notWritten _ _ => true
  | _ => false

/-- A line as it is printed, after the time `elapsed`. -/
def render (elapsed : String) : Line → String
  | plain s => s
  | processing file => s!"Processing dump file: {String.ofList file.render}"
  | reading => "Reading dump file..."
  | size bytes =>
    let shown := (Report.size (.whole bytes)).toOption.getD []
    s!"Dump size: {String.ofList shown}"
  | parsing => "Parsing SQL statements..."
  | note n => n.message
  | parsed objects => s!"Parsed {objects} objects in {elapsed}"
  | kinds => "Object types:"
  | kind s => s!"  {s}"
  | residual found => if found then "Residual content: Yes" else "Residual content: No"
  | dryRun => "Dry run mode: skipping output"
  | writing folder => s!"Writing files to: {String.ofList folder.render}"
  | notWritten label e => s!"Failed to write {label}: {e.message}"
  | written objects => s!"Objects written: {objects}"
  | completed => s!"Processing completed in {elapsed}"
  | errors count => s!"Errors encountered: {count}"
  | error label e => s!"  - {label}: {e.message}"
  | failure message => s!"Error: {message}"
  | hint => "Use --help for usage information"

end Line

/-- What a run prints, its status, and the file tree after it. -/
structure Outcome where
  status : Nat
  output : List String := []
  log : List Line := []
  tree : Tree
deriving DecidableEq, Repr

/-- The lines that tell what a dump holds. -/
def parseLines (d : Dump) : List Line :=
  .parsing :: d.notes.map .note ++ .parsed d.objects.length :: .kinds ::
    (Report.kinds d.objects).map .kind ++ [.residual (!d.residual.isEmpty)]

/-- The lines that tell what was written. -/
def writeLines (out : Path) (s : Export.Summary) : List Line :=
  let errors := s.errors
  .writing out :: s.objectErrors.map (fun (label, e) => .notWritten label e) ++
    [.written s.written, .completed] ++
    (if errors.isEmpty then []
      else .errors errors.length :: errors.map fun (label, e) => .error label e)

/-- Reads the dump and, unless it is a dry run, writes its objects. UTF-8 covers them all. -/
def process (o : Options) (file out : Path) (t : Tree) : Outcome :=
  let start := [.processing file, .reading]
  match Source.read t file .utf8 with
  | .error e =>
    let line := if e.isReported then .failure e.message else .plain e.message
    { status := 1, log := start ++ [line], tree := t }
  | .ok content =>
    let d := Dump.parse content
    let log := start ++ .size (Utf8.encode content).length :: parseLines d
    if o.dryRun then { status := 0, log := log ++ [.dryRun], tree := t }
    else
      match Export.write .utf8 out t d.objects d.residual with
      | (after, .ok summary) => { status := 0, log := log ++ writeLines out summary, tree := after }
      | (after, .error f) => { status := 1, log := log ++ [.plain f.message], tree := after }

/-- The run that the options ask for in the folder `base`. There is none for a path with a NUL,
which no operating system passes on. -/
def run? (o : Options) (base : Path) (t : Tree) : Option Outcome := do
  let file ← Path.resolve? base o.file
  let out ← Path.resolve? base o.directory
  let outcome := process o file out t
  return { outcome with log := outcome.log.filter fun line => o.verbose || !line.isDetail }

/-- A run that ends before it begins. -/
def stopped (t : Tree) : Stop → Outcome
  | .help => { status := 0, output := help, tree := t }
  | .usage e => { status := 2, log := (usageLines e).map .plain, tree := t }
  | .fileMissing =>
    { status := 1, log := [.failure Stop.fileMissing.message, .hint], tree := t }
  | .directoryEmpty => { status := 1, log := [.failure Stop.directoryEmpty.message], tree := t }

/-- The run for the arguments of a command line. -/
def main? (arguments : List Text) (base : Path) (t : Tree) : Option Outcome :=
  match Options.parse arguments with
  | .error stop => some (stopped t stop)
  | .ok o => run? o base t

end SchemaDump.CommandLine
